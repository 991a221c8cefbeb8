import MegaVM.SwapLog.PageStore

/-!
# `shrink_page_list`

The reclaim of a list of pages, with the hook of the experiment in front
of `pageout`. What the kernel functions return for a page is the input,
one record for each turn of the loop and one field for each answer, in
the order in which the source asks. A `goto` is the error of an `Except`;
its label decides to which list the page goes.
-/

namespace MegaVM

/-- `struct scan_control` and what else is the same for the whole list. -/
structure ScanControl where
  gfpFs : Bool
  gfpIo : Bool
  mayUnmap : Bool
  mayWritepage : Bool
  forceReclaim : Bool
  /-- `current_is_kswapd()`. -/
  kswapd : Bool
  /-- `sane_reclaim(sc)`. -/
  saneReclaim : Bool
  deriving DecidableEq, Repr

/-- `enum page_references`. -/
inductive PageReferences
  | reclaim | reclaimClean | keep | activate
  deriving DecidableEq, Repr

/-- What `try_to_unmap` returns. -/
inductive Unmap
  | success | again | fail | mlock
  deriving DecidableEq, Repr

/-- `pageout_t`. -/
inductive Pageout
  | keep | activate | success | clean
  deriving DecidableEq, Repr

/-- One turn of the loop: what the kernel answers. -/
structure PageTry where
  trylock : Bool
  evictable : Bool
  /-- `page_mapped` and `PageSwapCache` at the start of the turn. -/
  mapped : Bool
  swapCache : Bool
  /-- `page_check_dirty_writeback`. -/
  checkDirty : Bool
  checkWriteback : Bool
  /-- `page_mapping`, and its inode is congested. -/
  mapping : Bool
  congested : Bool
  pageReclaim : Bool
  writeback : Bool
  zoneWriteback : Bool
  references : PageReferences
  anon : Bool
  addToSwap : Bool
  /-- `page_mapping` after `add_to_swap`. -/
  swapMapping : Bool
  mappedStill : Bool
  unmap : Unmap
  dirty : Bool
  fileCache : Bool
  zoneDirty : Bool
  /-- `page_private`. -/
  priv : Ulong
  /-- What `kmap` returns. -/
  kmap : Option Bytes
  pageout : Pageout
  /-- The page after a successful `pageout`: still under writeback or
  dirty, locked again, dirty or under writeback then, its mapping. -/
  stillOut : Bool
  relock : Bool
  dirtyAgain : Bool
  mappingAfter : Bool
  hasPrivate : Bool
  release : Bool
  /-- `page_count(page) == 1`. -/
  lastRef : Bool
  putTestzero : Bool
  removeMapping : Bool

/-- Where a turn ends. -/
inductive Label
  | keep | keepLocked | cullMlocked | activateLocked
  | freeIt
  /-- `list_add_tail`: the same page again. -/
  | again
  /-- The page is on no list. -/
  | gone
  deriving DecidableEq, Repr

/-- The counters of the function. -/
structure Counters where
  nrScanned : Nat := 0
  pgactivate : Nat := 0
  nrUnqueuedDirty : Nat := 0
  nrDirty : Nat := 0
  nrCongested : Nat := 0
  nrReclaimed : Nat := 0
  nrWriteback : Nat := 0
  nrImmediate : Nat := 0
  deriving DecidableEq, Repr

/-- The rest of a turn, or the label it jumps to. -/
abbrev Turn := Except (Label × Counters)

/-- From `trylock_page` to the three cases of a page under writeback. -/
def scanPage (sc : ScanControl) (t : PageTry) (n : Counters) : Turn Counters :=
  if !t.trylock then .error (.keep, n)
  else
    let n := { n with nrScanned := n.nrScanned + 1 }
    if !t.evictable then .error (.cullMlocked, n)
    else if !sc.mayUnmap && t.mapped then .error (.keepLocked, n)
    else
      let n := if t.mapped || t.swapCache then { n with nrScanned := n.nrScanned + 1 } else n
      let n := if t.checkDirty || t.checkWriteback then { n with nrDirty := n.nrDirty + 1 } else n
      let n := if t.checkDirty && !t.checkWriteback then
        { n with nrUnqueuedDirty := n.nrUnqueuedDirty + 1 } else n
      let n := if ((t.checkDirty || t.checkWriteback) && t.mapping && t.congested) ||
          (t.checkWriteback && t.pageReclaim) then
        { n with nrCongested := n.nrCongested + 1 } else n
      if t.writeback then
        -- case 1, case 2 and case 3 of a page under writeback
        if sc.kswapd && t.pageReclaim && t.zoneWriteback then
          .error (.keepLocked, { n with nrImmediate := n.nrImmediate + 1 })
        else if sc.saneReclaim || !t.pageReclaim ||
            !(sc.gfpFs || (t.swapCache && sc.gfpIo)) then
          .error (.keepLocked, { n with nrWriteback := n.nrWriteback + 1 })
        else .error (.again, n)
      else .ok n

/-- `references`, which `force_reclaim` leaves at its first value. -/
def PageTry.referencesOf (sc : ScanControl) (t : PageTry) : PageReferences :=
  if sc.forceReclaim then .reclaimClean else t.references

/-- `add_to_swap` is called for the page. -/
def PageTry.toSwap (t : PageTry) : Bool := t.anon && !t.swapCache

/-- `PageSwapCache` once the page has its swap space. -/
def PageTry.inSwapCache (t : PageTry) : Bool := t.swapCache || (t.anon && t.addToSwap)

/-- `mapping` from then on. -/
def PageTry.mappingNow (t : PageTry) : Bool := if t.toSwap then t.swapMapping else t.mapping

/-- `may_enter_fs` from then on. -/
def PageTry.mayEnterFs (sc : ScanControl) (t : PageTry) : Bool :=
  t.toSwap || sc.gfpFs || (t.swapCache && sc.gfpIo)

/-- From `page_check_references` to `try_to_unmap`. -/
def unmapPage (sc : ScanControl) (t : PageTry) (n : Counters) : Turn Counters :=
  match t.referencesOf sc with
  | .activate => .error (.activateLocked, n)
  | .keep => .error (.keepLocked, n)
  | .reclaim | .reclaimClean =>
      if t.toSwap && !sc.gfpIo then .error (.keepLocked, n)
      else if t.toSwap && !t.addToSwap then .error (.activateLocked, n)
      else if t.mappedStill && t.mappingNow then
        match t.unmap with
        | .fail => .error (.activateLocked, n)
        | .again => .error (.keepLocked, n)
        | .mlock => .error (.cullMlocked, n)
        | .success => .ok n
      else .ok n

/-- The tests of a dirty page in front of the hook. -/
def mayPageout (sc : ScanControl) (t : PageTry) (n : Counters) : Turn Counters :=
  -- only kswapd writes file pages, and of a dirty zone
  if t.fileCache && (!sc.kswapd || !t.zoneDirty) then .error (.keepLocked, n)
  else if t.referencesOf sc = .reclaimClean then .error (.keepLocked, n)
  else if !t.mayEnterFs sc then .error (.keepLocked, n)
  else if !sc.mayWritepage then .error (.keepLocked, n)
  else .ok n

/-- The `switch` on `pageout`: the mapping the rest of the turn sees. -/
def afterPageout (t : PageTry) (n : Counters) : Turn Bool :=
  match t.pageout with
  | .keep => .error (.keepLocked, n)
  | .activate => .error (.activateLocked, n)
  | .success =>
      if t.stillOut then .error (.keep, n)
      else if !t.relock then .error (.keep, n)
      else if t.dirtyAgain then .error (.keepLocked, n)
      else .ok t.mappingAfter
  | .clean => .ok t.mappingNow

/-- From the buffers of the page to `free_it`. -/
def freePage (t : PageTry) (mapping : Bool) (n : Counters) : Label × Counters :=
  if t.hasPrivate && !t.release then (.activateLocked, n)
  else if t.hasPrivate && !mapping && t.lastRef then
    -- an orphaned buffer page
    if t.putTestzero then (.freeIt, n)
    else (.gone, { n with nrReclaimed := n.nrReclaimed + 1 })
  else if !mapping || !t.removeMapping then (.keepLocked, n)
  else (.freeIt, n)

/-! ## The hook -/

/-- The globals of `vmscan.c`. -/
structure Reclaim where
  firstTime : Bool
  log : SwapLog
  store : PageStore

namespace Reclaim

/-- The globals at boot; `mem` is what the allocator will hand out. -/
def boot (mem : Nat → PageRecord) : Reclaim :=
  ⟨true, Vmscan.log, .alloc 100 100 (Nat.le_refl _) mem⟩

/-- The hook in front of `pageout`. The allocations succeed, and what they
return is what `boot` has. -/
def hook (v : Reclaim) (t : PageTry) : Reclaim :=
  let v := { v with firstTime := false }
  if t.priv ≠ 0 then
    { v with log := Vmscan.addInArray v.log t.priv, store := v.store.fill t.priv t.kmap }
  else v

end Reclaim

/-! ## The turn and the loop -/

/-- The turn up to the hook: whether the page is dirty and comes to it. -/
def beforePageout (sc : ScanControl) (t : PageTry) (n : Counters) : Turn Counters := do
  let n ← scanPage sc t n
  let n ← unmapPage sc t n
  if t.dirty then mayPageout sc t n else .ok n

/-- The turn from there on. -/
def fromPageout (t : PageTry) (n : Counters) : Label × Counters :=
  if t.dirty then
    match afterPageout t n with
    | .ok mapping => freePage t mapping n
    | .error exit => exit
  else freePage t t.mappingNow n

/-- One turn of the loop. -/
def shrinkPage (sc : ScanControl) (v : Reclaim) (t : PageTry) (n : Counters) :
    Reclaim × Label × Counters :=
  match beforePageout sc t n with
  | .ok n => (if t.dirty then v.hook t else v, fromPageout t n)
  | .error exit => (v, exit)

/-- A page on a list. -/
abbrev PageId := Nat

/-- The loop between two turns. -/
structure ShrinkRun where
  reclaim : Reclaim
  /-- `page_list` from its tail, where the loop takes its pages. -/
  pageList : List PageId
  retPages : List PageId
  freePages : List PageId
  counters : Counters
  /-- The turns that have called `pageout`, oldest first; nothing reads
  this. -/
  pageouts : List PageTry

namespace ShrinkRun

/-- What stands behind the labels. -/
def goto (s : ShrinkRun) (page : PageId) (n : Counters) : Label → ShrinkRun
  | .keep | .keepLocked | .cullMlocked =>
      { s with counters := n, retPages := page :: s.retPages }
  | .activateLocked =>
      { s with
        counters := { n with pgactivate := n.pgactivate + 1 }
        retPages := page :: s.retPages }
  | .freeIt =>
      { s with
        counters := { n with nrReclaimed := n.nrReclaimed + 1 }
        freePages := page :: s.freePages }
  | .again => { s with counters := n, pageList := page :: s.pageList }
  | .gone => { s with counters := n }

/-- `pageout` is called in this turn. -/
def callsPageout (sc : ScanControl) (t : PageTry) (n : Counters) : Bool :=
  t.dirty && (beforePageout sc t n).isOk

/-- One turn, on the page at the tail of the list. -/
def turn (s : ShrinkRun) (sc : ScanControl) (t : PageTry) (page : PageId)
    (rest : List PageId) : ShrinkRun :=
  let (reclaim, label, n) := shrinkPage sc s.reclaim t s.counters
  { s with
    reclaim := reclaim
    pageList := rest
    pageouts := if callsPageout sc t s.counters then s.pageouts ++ [t] else s.pageouts }.goto
      page n label

/-- The `while` loop. -/
def loop (sc : ScanControl) : List PageTry → ShrinkRun → ShrinkRun
  | [], s => s
  | t :: ts, s =>
      match s.pageList with
      | [] => s
      | page :: rest => loop sc ts (s.turn sc t page rest)

end ShrinkRun

/-- `shrink_page_list`: the loop, and then the kept pages back on the
list. -/
def shrinkPageList (sc : ScanControl) (pages : List PageId) (ts : List PageTry) (v : Reclaim) :
    ShrinkRun :=
  let s := ShrinkRun.loop sc ts ⟨v, pages, [], [], {}, []⟩
  { s with pageList := s.pageList ++ s.retPages.reverse }

/-! ## What a run does to the log -/

namespace ShrinkRun

theorem goto_frame (s : ShrinkRun) (page : PageId) (n : Counters) (label : Label) :
    (s.goto page n label).reclaim = s.reclaim ∧ (s.goto page n label).pageouts = s.pageouts := by
  cases label <;> exact ⟨rfl, rfl⟩

/-- The entries the hook records. -/
def recorded (ts : List PageTry) : List Ulong := (ts.filter (·.priv != 0)).map (·.priv)

theorem recorded_cons (t : PageTry) (ts : List PageTry) :
    recorded (t :: ts) = if t.priv = 0 then recorded ts else t.priv :: recorded ts := by
  rw [recorded, List.filter_cons]
  by_cases hpriv : t.priv = 0
  · rw [if_pos hpriv, if_neg fun hne => bne_iff_ne.mp hne hpriv]
    rfl
  · rw [if_neg hpriv, if_pos (bne_iff_ne.mpr hpriv)]
    rfl

/-- What the hook does to the log, page after page. -/
theorem foldl_hook_log (ts : List PageTry) (v : Reclaim) :
    (ts.foldl Reclaim.hook v).log = SwapLog.record Vmscan.addInArray v.log (recorded ts) := by
  induction ts generalizing v with
  | nil => rfl
  | cons t ts ih =>
      rw [List.foldl_cons, ih, recorded_cons, Reclaim.hook]
      by_cases hpriv : t.priv = 0
      · rw [if_pos hpriv, if_neg (not_not.mpr hpriv)]
      · rw [if_neg hpriv, if_pos hpriv]
        rfl

/-- The hook changes no filled record. -/
theorem hook_store_extends (v : Reclaim) (t : PageTry) : v.store.Extends (v.hook t).store := by
  unfold Reclaim.hook
  dsimp only
  split
  · exact PageStore.fill_extends
  · exact PageStore.Extends.refl _

theorem foldl_hook_extends (ts : List PageTry) (v : Reclaim) :
    v.store.Extends (ts.foldl Reclaim.hook v).store := by
  induction ts generalizing v with
  | nil => exact PageStore.Extends.refl _
  | cons t ts ih => exact (hook_store_extends v t).trans (ih (v.hook t))

/-- The globals are what the hook makes of them for the pages handed to
`pageout`. -/
def Hooked (v : Reclaim) (s : ShrinkRun) : Prop := s.reclaim = s.pageouts.foldl Reclaim.hook v

/-- A turn that calls `pageout` has run the hook, any other has not. -/
theorem shrinkPage_reclaim (sc : ScanControl) (v : Reclaim) (t : PageTry) (n : Counters) :
    (shrinkPage sc v t n).1 = if callsPageout sc t n then v.hook t else v := by
  unfold shrinkPage callsPageout
  cases beforePageout sc t n with
  -- the turn has jumped to a label in front of the hook
  | error exit =>
      rw [show (Except.error exit : Turn Counters).isOk = false from rfl, Bool.and_false]
      rfl
  | ok n' =>
      rw [show (Except.ok n' : Turn Counters).isOk = true from rfl, Bool.and_true]

theorem turn_frame (s : ShrinkRun) (sc : ScanControl) (t : PageTry) (page : PageId)
    (rest : List PageId) :
    (s.turn sc t page rest).reclaim =
        (if callsPageout sc t s.counters then s.reclaim.hook t else s.reclaim) ∧
      (s.turn sc t page rest).pageouts =
        if callsPageout sc t s.counters then s.pageouts ++ [t] else s.pageouts := by
  rw [← shrinkPage_reclaim]
  exact goto_frame _ page _ _

theorem Hooked.turn {v : Reclaim} {s : ShrinkRun} (h : Hooked v s) (sc : ScanControl)
    (t : PageTry) (page : PageId) (rest : List PageId) : Hooked v (s.turn sc t page rest) := by
  obtain ⟨hreclaim, hpageouts⟩ := s.turn_frame sc t page rest
  rw [Hooked, hreclaim, hpageouts]
  by_cases hcall : callsPageout sc t s.counters = true
  · rw [if_pos hcall, if_pos hcall, List.foldl_append, ← h]
    rfl
  · rw [if_neg hcall, if_neg hcall]
    exact h

theorem Hooked.loop {v : Reclaim} (sc : ScanControl) (ts : List PageTry) {s : ShrinkRun}
    (h : Hooked v s) : Hooked v (loop sc ts s) := by
  induction ts generalizing s with
  | nil => exact h
  | cons t ts ih =>
      rw [ShrinkRun.loop]
      cases hlist : s.pageList with
      | nil => exact h
      | cons page rest => exact ih (h.turn sc t page rest)

end ShrinkRun

/-- **A run of `shrink_page_list`** runs the hook once for every page it
hands to `pageout`, and for no other. -/
theorem shrinkPageList_hooked (sc : ScanControl) (pages : List PageId) (ts : List PageTry)
    (v : Reclaim) : ShrinkRun.Hooked v (shrinkPageList sc pages ts v) := by
  have hstart : ShrinkRun.Hooked v ⟨v, pages, [], [], {}, []⟩ := rfl
  exact hstart.loop sc ts

/-! ## Which pages are handed to `pageout` -/

namespace PageTry
variable (sc : ScanControl) (t : PageTry)

/-- The page is locked and may be unmapped. -/
def taken : Bool := t.trylock && t.evictable && (sc.mayUnmap || !t.mapped)

/-- Case 3 of a page under writeback: the turn waits, and the same page
comes again. -/
def waits : Bool :=
  t.taken sc && t.writeback && !(sc.kswapd && t.pageReclaim && t.zoneWriteback) &&
    !(sc.saneReclaim || !t.pageReclaim || !(sc.gfpFs || (t.swapCache && sc.gfpIo)))

/-- The page is out of the page tables and has its swap space. -/
def unmapped : Bool :=
  (t.referencesOf sc == .reclaim || t.referencesOf sc == .reclaimClean) &&
    !(t.toSwap && (!sc.gfpIo || !t.addToSwap)) &&
    (!(t.mappedStill && t.mappingNow) || t.unmap == .success)

/-- A dirty page may be written. -/
def writable : Bool :=
  !(t.fileCache && (!sc.kswapd || !t.zoneDirty)) && t.referencesOf sc != .reclaimClean &&
    t.mayEnterFs sc && sc.mayWritepage

/-- The turn comes to `pageout`. -/
def handedOver : Bool :=
  t.dirty && t.taken sc && !t.writeback && t.unmapped sc && t.writable sc

end PageTry

/-- The turns that are taken with so many pages on the list. -/
def ScanControl.turns (sc : ScanControl) : Nat → List PageTry → List PageTry
  | 0, _ | _, [] => []
  | left + 1, t :: ts => t :: sc.turns (if t.waits sc then left + 1 else left) ts

/-- The label a turn jumps to, if it does. -/
def Turn.exit {α : Type} : Turn α → Option Label
  | .ok _ => none
  | .error (label, _) => some label

@[simp] theorem Turn.exit_ok {α : Type} (a : α) : Turn.exit (.ok a) = none := rfl

@[simp] theorem Turn.exit_error {α : Type} (label : Label) (n : Counters) :
    Turn.exit (α := α) (.error (label, n)) = some label := rfl

theorem Turn.isOk_iff {α : Type} (x : Turn α) : x.isOk = true ↔ Turn.exit x = none := by
  cases x with
  | ok a => exact iff_of_true rfl rfl
  | error exit => exact iff_of_false Bool.false_ne_true nofun

theorem Turn.exit_bind_none {α β : Type} (x : Turn α) (f : α → Turn β) :
    Turn.exit (x >>= f) = none ↔ ∃ a, x = .ok a ∧ (f a).exit = none := by
  cases x with
  | ok a => exact ⟨fun h => ⟨a, rfl, h⟩, fun ⟨_, ha, h⟩ => Except.ok.inj ha ▸ h⟩
  | error exit => exact ⟨nofun, nofun⟩

theorem Turn.exit_bind_some {α β : Type} (x : Turn α) (f : α → Turn β) (label : Label) :
    Turn.exit (x >>= f) = some label ↔
      Turn.exit x = some label ∨ ∃ a, x = .ok a ∧ (f a).exit = some label := by
  cases x with
  | ok a =>
      exact ⟨fun h => .inr ⟨a, rfl, h⟩, fun h => by
        obtain ⟨_, ha, h⟩ := h.resolve_left nofun
        exact Except.ok.inj ha ▸ h⟩
  | error exit => exact ⟨.inl, fun h => h.resolve_right nofun⟩

section
variable (sc : ScanControl) (t : PageTry) (n : Counters)

/-- The exits of `scanPage`; the counters decide none of them. -/
theorem scanPage_exit : (scanPage sc t n).exit =
    if !t.trylock then some .keep
    else if !t.evictable then some .cullMlocked
    else if !sc.mayUnmap && t.mapped then some .keepLocked
    else if t.writeback then if t.waits sc then some .again else some .keepLocked
    else none := by
  have hwaits : t.waits sc = (t.trylock && t.evictable && (sc.mayUnmap || !t.mapped) &&
      t.writeback && !(sc.kswapd && t.pageReclaim && t.zoneWriteback) &&
      !(sc.saneReclaim || !t.pageReclaim || !(sc.gfpFs || (t.swapCache && sc.gfpIo)))) := rfl
  rw [hwaits]
  simp only [scanPage, apply_ite Turn.exit, Turn.exit_error, Turn.exit_ok]
  generalize (sc.kswapd && t.pageReclaim && t.zoneWriteback) = case1
  generalize (sc.saneReclaim || !t.pageReclaim ||
    !(sc.gfpFs || (t.swapCache && sc.gfpIo))) = case2
  cases t.trylock with
  | false => rfl
  | true =>
      cases t.evictable with
      | false => rfl
      | true =>
          cases sc.mayUnmap <;> cases t.mapped <;> cases t.writeback <;> cases case1 <;>
            cases case2 <;> rfl

theorem unmapPage_exit :
    ((unmapPage sc t n).exit = none ↔ t.unmapped sc = true) ∧
      (unmapPage sc t n).exit ≠ some .again := by
  unfold unmapPage PageTry.unmapped
  cases t.referencesOf sc with
  | activate | keep => exact ⟨iff_of_false nofun nofun, nofun⟩
  | reclaim | reclaimClean =>
      dsimp only
      cases t.toSwap <;> cases sc.gfpIo <;> cases t.addToSwap <;>
        cases (t.mappedStill && t.mappingNow) <;> cases t.unmap <;>
        first
        | exact ⟨iff_of_true rfl rfl, nofun⟩
        | exact ⟨iff_of_false nofun nofun, nofun⟩

theorem mayPageout_exit :
    ((mayPageout sc t n).exit = none ↔ t.writable sc = true) ∧
      (mayPageout sc t n).exit ≠ some .again := by
  unfold mayPageout PageTry.writable
  cases t.fileCache && (!sc.kswapd || !t.zoneDirty) <;> cases t.referencesOf sc <;>
    cases t.mayEnterFs sc <;> cases sc.mayWritepage <;>
    first
    | exact ⟨iff_of_true rfl rfl, nofun⟩
    | exact ⟨iff_of_false nofun nofun, nofun⟩

theorem scanPage_exit_none :
    (scanPage sc t n).exit = none ↔ (t.taken sc && !t.writeback) = true := by
  rw [scanPage_exit, PageTry.taken]
  cases t.trylock <;> cases t.evictable <;> cases sc.mayUnmap <;> cases t.mapped <;>
    cases t.writeback <;> cases t.waits sc <;>
    first
    | exact iff_of_true rfl rfl
    | exact iff_of_false nofun nofun

theorem scanPage_exit_again : (scanPage sc t n).exit = some .again ↔ t.waits sc = true := by
  rw [scanPage_exit]
  constructor
  · intro h
    cases hw : t.waits sc with
    | true => rfl
    | false =>
        rw [hw] at h
        revert h
        cases t.trylock <;> cases t.evictable <;> cases sc.mayUnmap <;> cases t.mapped <;>
          cases t.writeback <;> nofun
  · intro hw
    have hparts := hw
    simp only [PageTry.waits, PageTry.taken, Bool.and_eq_true, Bool.or_eq_true] at hparts
    obtain ⟨⟨⟨⟨⟨htry, hevict⟩, hmap⟩, hwb⟩, -⟩, -⟩ := hparts
    rw [htry, hevict, hwb, hw]
    rcases hmap with hmay | hmapped
    · rw [hmay]
      rfl
    · rw [show t.mapped = false by simpa using hmapped, Bool.and_false]
      rfl

/-- The turn gets past the tests in front of the hook. -/
theorem beforePageout_exit_none : (beforePageout sc t n).exit = none ↔
    (t.taken sc && !t.writeback) = true ∧ t.unmapped sc = true ∧
      (t.dirty = true → t.writable sc = true) := by
  have hlast : ∀ n, Turn.exit (if t.dirty then mayPageout sc t n else .ok n) = none ↔
      (t.dirty = true → t.writable sc = true) := by
    intro n
    cases t.dirty with
    | false => exact iff_of_true rfl nofun
    | true => exact (mayPageout_exit sc t n).1.trans ⟨fun h _ => h, fun h => h rfl⟩
  rw [← scanPage_exit_none sc t n, beforePageout, Turn.exit_bind_none]
  constructor
  · rintro ⟨n₁, hscan, h⟩
    obtain ⟨n₂, hunmap, h⟩ := (Turn.exit_bind_none _ _).mp h
    refine ⟨by rw [hscan]; rfl, (unmapPage_exit sc t n₁).1.mp ?_, (hlast n₂).mp h⟩
    rw [hunmap]
    rfl
  · rintro ⟨hscan, hunmap, h⟩
    cases hrun : scanPage sc t n with
    | error exit =>
        rw [hrun] at hscan
        cases hscan
    | ok n₁ =>
        refine ⟨n₁, rfl, ?_⟩
        have hexit := (unmapPage_exit sc t n₁).1.mpr hunmap
        cases hrun' : unmapPage sc t n₁ with
        | error exit =>
            rw [hrun'] at hexit
            cases hexit
        | ok n₂ => exact (hlast n₂).mpr h

/-- And goes back to the same page only when it waits. -/
theorem beforePageout_exit_again :
    (beforePageout sc t n).exit = some .again ↔ t.waits sc = true := by
  rw [← scanPage_exit_again sc t n, beforePageout, Turn.exit_bind_some]
  refine or_iff_left ?_
  rintro ⟨n₁, -, h⟩
  rcases (Turn.exit_bind_some _ _ _).mp h with h | ⟨n₂, -, h⟩
  · exact (unmapPage_exit sc t n₁).2 h
  · revert h
    cases t.dirty with
    | false => exact nofun
    | true => exact (mayPageout_exit sc t n₂).2

/-- A turn runs the hook exactly when its page is handed over. -/
theorem callsPageout_eq : ShrinkRun.callsPageout sc t n = t.handedOver sc := by
  rw [Bool.eq_iff_iff, ShrinkRun.callsPageout, PageTry.handedOver, Bool.and_eq_true,
    Turn.isOk_iff, beforePageout_exit_none]
  simp only [Bool.and_eq_true]
  constructor
  · rintro ⟨hdirty, ⟨htaken, hwb⟩, hunmap, hwrite⟩
    exact ⟨⟨⟨⟨hdirty, htaken⟩, hwb⟩, hunmap⟩, hwrite hdirty⟩
  · rintro ⟨⟨⟨⟨hdirty, htaken⟩, hwb⟩, hunmap⟩, hwrite⟩
    exact ⟨hdirty, ⟨htaken, hwb⟩, hunmap, fun _ => hwrite⟩

theorem freePage_ne_again (mapping : Bool) : (freePage t mapping n).1 ≠ .again := by
  unfold freePage
  split
  · nofun
  · split
    · split <;> nofun
    · split <;> nofun

theorem fromPageout_ne_again : (fromPageout t n).1 ≠ .again := by
  unfold fromPageout
  split
  · split
    · exact freePage_ne_again t n _
    · rename_i exit hexit
      have hlabel : (afterPageout t n).exit ≠ some .again := by
        unfold afterPageout
        cases t.pageout with
        | success => cases t.stillOut <;> cases t.relock <;> cases t.dirtyAgain <;> nofun
        | _ => nofun
      rw [hexit] at hlabel
      exact fun heq => hlabel (congrArg some heq)
  · exact freePage_ne_again t n _

/-- A turn takes the same page again exactly when it waits. -/
theorem shrinkPage_again (v : Reclaim) :
    (shrinkPage sc v t n).2.1 = .again ↔ t.waits sc = true := by
  rw [← beforePageout_exit_again sc t n, shrinkPage]
  cases hbefore : beforePageout sc t n with
  | ok n' => exact iff_of_false (fromPageout_ne_again t n') nofun
  | error exit => exact ⟨congrArg some, Option.some.inj⟩

end

namespace ShrinkRun
variable (sc : ScanControl)

theorem turn_pageList (s : ShrinkRun) (t : PageTry) (page : PageId) (rest : List PageId) :
    (s.turn sc t page rest).pageList.length
      = if t.waits sc then rest.length + 1 else rest.length := by
  have hgoto : ∀ (s : ShrinkRun) (n : Counters) (label : Label),
      (s.goto page n label).pageList
        = if label = .again then page :: s.pageList else s.pageList := by
    intro s n label
    cases label <;> rfl
  have hagain := shrinkPage_again sc t s.counters s.reclaim
  rw [turn, hgoto]
  by_cases hw : t.waits sc = true
  · rw [if_pos (hagain.mpr hw), if_pos hw]
    rfl
  · rw [if_neg (mt hagain.mp hw), if_neg hw]

theorem loop_pageouts (ts : List PageTry) (s : ShrinkRun) :
    (loop sc ts s).pageouts
      = s.pageouts ++ (sc.turns s.pageList.length ts).filter (·.handedOver sc) := by
  induction ts generalizing s with
  | nil => cases s.pageList.length <;> simp [loop, ScanControl.turns]
  | cons t ts ih =>
      rw [loop]
      cases hlist : s.pageList with
      | nil => simp [ScanControl.turns]
      | cons page rest =>
          obtain ⟨-, hpageouts⟩ := s.turn_frame sc t page rest
          rw [List.length_cons, ScanControl.turns, List.filter_cons,
            ← callsPageout_eq sc t s.counters]
          rw [ih, turn_pageList, hpageouts]
          split
          · rw [List.append_assoc]
            rfl
          · rfl

end ShrinkRun

/-- **The pages handed to `pageout`**, from the answers alone: of the turns
that are taken, those that pass every test. -/
theorem shrinkPageList_pageouts (sc : ScanControl) (pages : List PageId) (ts : List PageTry)
    (v : Reclaim) : (shrinkPageList sc pages ts v).pageouts
      = (sc.turns pages.length ts).filter (·.handedOver sc) :=
  ShrinkRun.loop_pageouts sc ts ⟨v, pages, [], [], {}, []⟩

end MegaVM
