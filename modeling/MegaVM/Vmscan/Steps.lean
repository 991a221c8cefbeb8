import MegaVM.Vmscan.Ownership

/-!
# The steps keep the invariant

One lemma for each function of `MegaVM.Vmscan.Lru`.
-/

namespace MegaVM

open Function Tally

namespace Zone
variable {R : Type} [Fintype R] [DecidableEq R] {z w z' : Zone R} {pool : List PageId} {r : R}

/-- A step that changes only what the thread has before it. -/
theorem Inv.handOver {t t' : Reclaimer} (h : z.Inv pool) (hr : z.threads r = t)
    (hown : ∀ q, t'.own.count q = t.own.count q) (hrefs : ∀ q, t'.refs.count q = t.refs.count q)
    (hdead : ∀ q, t'.job.dead.count q = t.job.dead.count q) (hmine : t'.job.Flagged z.flags)
    (huncounted : ∀ lru, t'.job.uncounted lru = t.job.uncounted lru)
    (hisolated : ∀ file, t'.job.isolated file = t.job.isolated file) :
    (z.setThread r t').Inv pool := by
  refine h.setThread hr rfl ?_ h.listed (fun _ _ _ _ => rfl) hmine ?_ ?_ h.bug
  · intro q own refs dead _ hs
    rwa [hown, hrefs, hdead]
  · intro lru
    rw [huncounted]
  · intro file
    rw [hisolated]

theorem lru_update (flags : PageId → PageFlags) (page q : PageId) (f : PageFlags) :
    (update flags page f q).lru = if page = q then f.lru else (flags q).lru := by
  by_cases hq : page = q
  · subst hq
    rw [update_self, if_pos rfl]
  · rw [update_of_ne (Ne.symm hq), if_neg hq]

omit [Fintype R] [DecidableEq R] in
theorem addPageToLruList_nrLru (z : Zone R) (page : PageId) (f : PageFlags) (lru l : LruList) :
    ((z.setFlags page f).addPageToLruList page lru).nrLru l
      = z.nrLru l + if lru = l then (f.hpageNrPages : Int) else 0 := by
  by_cases hl : lru = l
  · subst hl
    simp only [addPageToLruList, setFlags, update_self, if_true]
  · simp only [addPageToLruList, setFlags, update_of_ne (Ne.symm hl), if_neg hl, add_zero]

omit [Fintype R] [DecidableEq R] in
theorem delPageFromLruList_nrLru (z : Zone R) (page : PageId) (f : PageFlags) (lru l : LruList) :
    ((z.setFlags page f).delPageFromLruList page lru).nrLru l
      = z.nrLru l - if lru = l then (f.hpageNrPages : Int) else 0 := by
  by_cases hl : lru = l
  · subst hl
    simp only [delPageFromLruList, setFlags, update_self, if_true]
  · simp only [delPageFromLruList, setFlags, update_of_ne (Ne.symm hl), if_neg hl, sub_zero]

theorem Inv.start {i : Isolation} (h : z.Inv pool) (hs : z.start r i = some z') : z'.Inv pool := by
  unfold Zone.start at hs
  split at hs
  · rename_i hr
    cases hs
    refine h.handOver hr (fun _ => rfl) (fun _ => rfl) (fun _ => rfl) ?_ ?_ (fun _ => rfl)
    · exact ⟨fun q hq => absurd hq List.not_mem_nil, rfl⟩
    · intro lru
      simp only [Job.uncounted, Nat.cast_zero, ite_self]
  · cases hs

/-! ## `isolate_lru_pages` -/

section Isolate
variable {i : Isolation}

omit [DecidableEq R] in
/-- A page at the tail of a list passes the tests that lead to a `BUG`. -/
theorem Inv.tail_flags (h : z.Inv pool) {lru : LruList} {page : PageId} {rest : List PageId}
    (hlist : z.lists lru = page :: rest) :
    (z.flags page).lru = true ∧ (z.flags page).pageLru = lru :=
  h.listed.mem_iff.mp (hlist ▸ List.mem_cons_self)

theorem isolateTest_evictable {f : PageFlags} {file active : Bool} {n : Nat} (sc : ScanControl)
    {t : IsolateTry} (hlru : f.lru = true) (hf : f.pageLru = .evictable file active) :
    isolateTest f n sc.isolateMode t ≠ .einval ∧
      (isolateTest f n sc.isolateMode t = .ok → 0 < n) := by
  have hunevictable : f.unevictable = false := by
    cases hu : f.unevictable with
    | false => rfl
    | true =>
        rw [PageFlags.pageLru, hu] at hf
        cases hf
  simp only [isolateTest, hlru, hunevictable, Bool.not_true, Bool.false_and, Bool.false_eq_true,
    if_false]
  constructor
  · intro hret
    split_ifs at hret
  · intro hret
    split_ifs at hret with _ _ _ hn
    exact Nat.pos_of_ne_zero hn

theorem Inv.isolateLruPages {t : IsolateTry} (h : z.Inv pool)
    (hr : z.threads r = ⟨.isolating i, none⟩) (hs : z.isolateLruPages r i t = some z') :
    z'.Inv pool := by
  unfold Zone.isolateLruPages at hs
  dsimp only at hs
  split at hs
  · cases hs
  · rename_i page rest hlist
    obtain ⟨hlru, hpage⟩ := h.tail_flags hlist
    obtain ⟨heinval, hpos⟩ :=
      isolateTest_evictable (n := z.count page) (t := t) i.sc hlru hpage
    split at hs
    · split at hs
      · -- the page is taken
        rename_i hret
        cases hs
        have hlists : update z.lists (.evictable i.file i.active) rest
            = update z.lists (z.flags page).pageLru
              ((z.lists (z.flags page).pageLru).erase page) := by
          rw [hpage, hlist, List.erase_cons_head]
        have hflagged := h.flagged r
        rw [hr] at hflagged
        refine h.setThread_del hr rfl hlru (z.flags page).clearLRU_lru
          (z.flags page).clearLRU_huge rfl hlists ?_ ?_ ?_ (fun _ => rfl) ?_
        · intro q own refs dead _ hsound
          simp only [Reclaimer.own_none, Reclaimer.refs_none, Job.own, Job.dead, List.count_append,
            List.count_singleton, beq_iff_eq, ← Nat.add_assoc] at hsound ⊢
          exact hsound.isolate ⟨rfl, rfl, rfl, rfl, rfl⟩ hlru (hpos hret) rfl
            fun q => lru_update _ _ _ _
        · constructor
          · refine (hflagged.1.update
              fun _ => (z.flags page).clearLRU_pageLru.trans hpage).append ?_
            intro q hq
            rw [List.mem_singleton.mp hq, update_self]
            exact hpage
          · simp only [hpageNrPages_update (z.flags page).clearLRU_huge, List.map_append,
              List.sum_append, hflagged.2, List.map_singleton, List.sum_singleton]
        · intro lru
          rw [hpage]
          simp only [Job.uncounted, setFlags, setCount, bugOn]
          split
          · push_cast
            omega
          · omega
        · simp [setFlags, setCount, bugOn, h.bug, hlru]
      · -- the page goes to the head of its list
        cases hs
        refine h.setThread hr rfl ?_ ?_ (fun _ _ _ _ => rfl) ?_ ?_ (fun _ => rfl) ?_
        · intro q own refs dead _ hsound
          exact hsound.frame ⟨rfl, rfl, rfl, rfl, rfl⟩ rfl rfl
        · intro lru q
          refine Eq.trans ?_ (h.listed lru q)
          by_cases heq : lru = .evictable i.file i.active
          · subst heq
            rw [hlist, List.count_cons]
            simp only [bugOn, update_self, List.count_append, List.count_singleton]
          · simp only [bugOn, update_of_ne heq]
        · have hflagged := h.flagged r
          rw [hr] at hflagged
          exact hflagged
        · intro lru
          have hpages : lruPages { z.bugOn !(z.flags page).lru with
              lists := update z.lists (.evictable i.file i.active) (rest ++ [page]) } lru
              = z.lruPages lru := by
            by_cases heq : lru = .evictable i.file i.active
            · subst heq
              simp only [lruPages, update_self, hlist, List.map_append, List.sum_append,
                List.map_cons, List.sum_cons, List.map_nil, List.sum_nil, bugOn]
              omega
            · simp only [lruPages, update_of_ne heq, bugOn]
          have huncounted : Job.uncounted lru (.isolating { i with scan := i.scan + 1 })
              = Job.uncounted lru (.isolating i) := rfl
          rw [huncounted]
          simp only [bugOn] at hpages ⊢
          rw [hpages]
        · simp [bugOn, h.bug, hlru]
      · rename_i hret
        exact absurd hret heinval
    · cases hs

theorem Inv.isolated (h : z.Inv pool) (hr : z.threads r = ⟨.isolating i, none⟩)
    (hs : z.isolated r i = some z') : z'.Inv pool := by
  have hflagged := h.flagged r
  rw [hr] at hflagged
  unfold Zone.isolated at hs
  dsimp only at hs
  -- the pages taken are counted now
  have hnrLru : ∀ lru, update z.nrLru (.evictable i.file i.active)
      (z.nrLru (.evictable i.file i.active) - i.nrTaken) lru
      = z.nrLru lru - Job.uncounted lru (.isolating i) := by
    intro lru
    simp only [Job.uncounted]
    by_cases heq : lru = .evictable i.file i.active
    · subst heq
      rw [update_self, if_pos rfl]
    · rw [update_of_ne heq, if_neg (Ne.symm heq)]
      omega
  have hnrIsolated : ∀ file, update z.nrIsolated i.file (z.nrIsolated i.file + i.nrTaken) file
      = z.nrIsolated file + if i.file = file then (i.nrTaken : Int) else 0 := by
    intro file
    by_cases heq : file = i.file
    · subst heq
      rw [update_self, if_pos rfl]
    · rw [update_of_ne heq, if_neg (Ne.symm heq)]
      omega
  split at hs
  · cases hs
  · split at hs
    · -- shrink_active_list
      rename_i hactive
      cases hs
      refine h.setThread_same hr rfl rfl rfl ?_ ?_ ?_ ?_ h.bug
      · intro q own refs dead _ hsound
        simp only [Reclaimer.own_none, Reclaimer.refs_none, Job.own, Job.dead, List.append_nil] at *
        exact hsound.frame ⟨rfl, rfl, rfl, rfl, rfl⟩ rfl rfl
      · refine ⟨?_, Carries.nil⟩
        rw [List.append_nil, ← hactive]
        exact hflagged.1
      · intro lru
        exact (congrArg (· - Job.uncounted lru (.sorting i.file i.nrTaken 0 i.dst [] []))
          (hnrLru lru)).trans (sub_zero _)
      · intro file
        dsimp only
        rw [hnrIsolated]
        simp only [Job.isolated]
        split <;> omega
    · rename_i hactive
      rw [Bool.not_eq_true] at hactive
      split at hs
      · -- nothing is taken
        rename_i hzero
        cases hs
        have hempty : i.dst = [] := by
          cases hdst : i.dst with
          | nil => rfl
          | cons page rest =>
              have hsum := hflagged.2
              rw [hdst, List.map_cons, List.sum_cons, hzero] at hsum
              have hpos := (z.flags page).hpageNrPages_pos
              omega
        refine h.setThread_same hr rfl rfl rfl ?_ trivial ?_ ?_ h.bug
        · intro q own refs dead _ hsound
          simp only [Reclaimer.own_none, Reclaimer.refs_none, Job.own, Job.dead, hempty] at *
          exact hsound.frame ⟨rfl, rfl, rfl, rfl, rfl⟩ rfl rfl
        · intro lru
          exact (congrArg (· - Job.uncounted lru .idle) (hnrLru lru)).trans (sub_zero _)
        · intro file
          dsimp only
          rw [hnrIsolated]
          simp only [Job.isolated]
          split <;> omega
      · cases hs
        refine h.setThread_same hr rfl rfl rfl ?_ ?_ ?_ ?_ h.bug
        · intro q own refs dead _ hsound
          simp only [Reclaimer.own_none, Reclaimer.refs_none, Job.own, Job.dead,
            List.append_nil] at *
          exact hsound.frame ⟨rfl, rfl, rfl, rfl, rfl⟩ rfl rfl
        · have hcarries := hflagged.1
          rw [hactive] at hcarries
          exact hcarries
        · intro lru
          exact (congrArg (· - Job.uncounted lru (.shrinking i.file i.nrTaken i.sc _))
            (hnrLru lru)).trans (sub_zero _)
        · intro file
          dsimp only
          rw [hnrIsolated]
          simp only [Job.isolated]
          split <;> omega

end Isolate

/-! ## `shrink_page_list` -/

section Shrink
variable {file : Bool} {nrTaken : Nat} {sc : ScanControl} {run : ShrinkRun}

/-- Where a turn puts its page. -/
theorem turn_lists (run : ShrinkRun) (sc : ScanControl) (t : PageTry) (page : PageId)
    (rest : List PageId) (q : PageId) :
    ((run.turn sc t page rest).pageList ++ (run.turn sc t page rest).retPages).count q
        = (rest ++ run.retPages).count q
          + (if page = q then (stays (shrinkPage sc run.reclaim t run.counters).2.1).toNat else 0) ∧
      (run.turn sc t page rest).freePages.count q = run.freePages.count q
        + (if page = q ∧ (shrinkPage sc run.reclaim t run.counters).2.1 = .freeIt
            then 1 else 0) := by
  rw [ShrinkRun.turn]
  generalize hshrink : shrinkPage sc run.reclaim t run.counters = out
  obtain ⟨v, label, n⟩ := out
  cases label <;>
    simp [ShrinkRun.goto, stays, List.count_append, List.count_cons, Nat.add_assoc]

theorem turn_pageList (run : ShrinkRun) (sc : ScanControl) (t : PageTry) (page : PageId)
    (rest : List PageId) :
    (run.turn sc t page rest).pageList
      = if (shrinkPage sc run.reclaim t run.counters).2.1 = .again then page :: rest else rest := by
  rw [ShrinkRun.turn]
  generalize hshrink : shrinkPage sc run.reclaim t run.counters = out
  obtain ⟨v, label, n⟩ := out
  cases label <;> rfl

omit [Fintype R] [DecidableEq R] in
/-- What a turn leaves alone besides its page. -/
theorem settle_frame (z : Zone R) (page : PageId) (label : Label) :
    (z.settle page label).threads = z.threads ∧ (z.settle page label).lists = z.lists ∧
      (z.settle page label).nrLru = z.nrLru ∧ (z.settle page label).nrIsolated = z.nrIsolated ∧
      (z.settle page label).flags = if label = .activateLocked then
        update z.flags page (z.flags page).setActive else z.flags := by
  cases label <;> exact ⟨rfl, rfl, rfl, rfl, rfl⟩

omit [Fintype R] [DecidableEq R] in
theorem settle_bug {page : PageId} (label : Label) (hbug : z.bug = false)
    (hactive : (z.flags page).active = false) (hlru : (z.flags page).lru = false)
    (hunevictable : (z.flags page).unevictable = false) : (z.settle page label).bug = false := by
  cases label <;> simp [settle, bugOn, setFlags, setCount, hbug, hactive, hlru, hunevictable]

theorem Inv.shrinkPageList {t : PageTry} (h : z.Inv pool)
    (hr : z.threads r = ⟨.shrinking file nrTaken sc run, none⟩)
    (hs : z.shrinkPageList r file nrTaken sc run t = some z') : z'.Inv pool := by
  unfold Zone.shrinkPageList at hs
  split at hs
  · cases hs
  rename_i page rest hlist
  split at hs
  · rename_i hanswers
    cases hs
    have hflagged : Carries z.flags (.evictable file false) (page :: rest) := by
      have hthread := h.flagged r
      rw [hr] at hthread
      exact hlist ▸ hthread
    have hown : page ∈ (z.threads r).own := by
      rw [hr]
      exact List.mem_append_left _ (hlist ▸ List.mem_cons_self)
    have hlru := (h.page page).lru_of_own hown
    obtain ⟨hunevictable, -, hactive⟩ :=
      (PageFlags.pageLru_eq_evictable _).mp (hflagged page List.mem_cons_self)
    obtain ⟨hfree, hgone⟩ := shrinkPage_leaves sc z.reclaim t run.counters
    have hlists := turn_lists { run with reclaim := z.reclaim } sc t page rest
    have hpageList := turn_pageList { run with reclaim := z.reclaim } sc t page rest
    dsimp only at hlists hpageList
    generalize hlabel : (shrinkPage sc z.reclaim t run.counters).2.1 = label at *
    generalize ({ run with reclaim := z.reclaim } : ShrinkRun).turn sc t page rest = run' at *
    set z₁ := z.bugOn (t.trylock && (z.flags page).active) with hz₁
    have hbug : z₁.bug = false := by simp [hz₁, bugOn, h.bug, hactive]
    obtain ⟨hthreads, hsame, hnrLru, hnrIsolated, hflags⟩ := z₁.settle_frame page label
    have hsound : ∀ q own refs dead, own ≤ refs →
        z.Sound pool q (own + (run.pageList ++ run.retPages).count q)
          (refs + (run.pageList ++ run.retPages).count q) (dead + run.freePages.count q) →
        (z₁.settle page label).Sound pool q (own + (run'.pageList ++ run'.retPages).count q)
          (refs + (run'.pageList ++ run'.retPages).count q) (dead + run'.freePages.count q) := by
      intro q own refs dead hle hsound
      rw [(hlists q).1, (hlists q).2]
      rw [hlist, List.cons_append, List.count_cons] at hsound
      simp only [beq_iff_eq, ← Nat.add_assoc] at hsound ⊢
      have hsound₁ := hsound.frame (w := z₁) ⟨rfl, rfl, rfl, rfl, rfl⟩ rfl rfl
      exact hsound₁.settle (Nat.add_le_add_right hle _) hanswers hfree hgone
    have hsettled := settle_bug label hbug hactive hlru hunevictable
    by_cases hactivate : label = .activateLocked
    · -- the page becomes active
      rw [if_pos hactivate] at hflags
      refine h.setThread_keep page hr hthreads (hr ▸ hown)
        ((z.flags page).setActive_lru.trans hlru) (z.flags page).setActive_huge hflags hsame
        (fun q own refs dead hle hs => (hsound q own refs dead hle hs).frame
          ⟨rfl, rfl, rfl, rfl, rfl⟩ rfl rfl) ?_ ?_ ?_ hsettled
      · have hrest : run'.pageList = rest := by
          rw [hpageList, hactivate]
          rfl
        have hnot : page ∉ rest := by
          intro hmem
          have hone := (h.page page).own_le_one r
          rw [hr, Reclaimer.own_none, Job.own, hlist, List.cons_append, List.count_cons_self,
            List.count_append] at hone
          have hpos := List.count_pos_iff.mpr hmem
          omega
        have hcarries := hflagged.tail.update (f := (z.flags page).setActive)
          fun hmem => absurd hmem hnot
        rw [← hrest] at hcarries
        exact hcarries
      · intro lru
        exact congrArg (· - (0 : Int)) (congrFun hnrLru lru)
      · intro f
        exact congrArg (· - ((Job.isolated f (.shrinking file nrTaken sc run) : Nat) : Int))
          (congrFun hnrIsolated f)
    · rw [if_neg hactivate] at hflags
      refine h.setThread_same hr hthreads hflags hsame
        (fun q own refs dead hle hs => (hsound q own refs dead hle hs).frame
          ⟨rfl, rfl, rfl, rfl, rfl⟩ rfl rfl) ?_ ?_ ?_ hsettled
      · have hcarries : Carries z.flags (.evictable file false) run'.pageList := by
          rw [hpageList]
          split
          · exact hflagged
          · exact hflagged.tail
        exact hcarries
      · intro lru
        exact congrArg (· - (0 : Int)) (congrFun hnrLru lru)
      · intro f
        exact congrArg (· - ((Job.isolated f (.shrinking file nrTaken sc run) : Nat) : Int))
          (congrFun hnrIsolated f)
  · cases hs

/-- `free_hot_cold_page_list`, and on to `putback_inactive_pages`. -/
theorem Inv.shrunk (h : z.Inv pool) (hr : z.threads r = ⟨.shrinking file nrTaken sc run, none⟩)
    (hs : z.shrunk r file nrTaken run = some z') : z'.Inv pool := by
  unfold Zone.shrunk at hs
  split at hs
  · rename_i hlist
    cases hs
    refine h.setThread_same hr rfl rfl rfl ?_ trivial (fun _ => rfl) (fun _ => rfl) h.bug
    intro q own refs dead _ hsound
    rw [sound_iff] at hsound ⊢
    simp only [Reclaimer.own_none, Reclaimer.refs_none, Job.own, Job.dead, hlist, List.nil_append,
      List.count_reverse, List.count_append, List.count_nil] at hsound ⊢
    omega
  · cases hs

end Shrink

/-! ## `put_page_testzero` under `lru_lock` -/

omit [Fintype R] [DecidableEq R] in
/-- What the last `put_page_testzero` does to the lists. -/
theorem putPageTestzero_last {page : PageId} (z : Zone R) (lru : LruList)
    (hlast : z.count page = 1) :
    (z.putPageTestzero page lru).threads = z.threads ∧
      (z.putPageTestzero page lru).flags
        = update z.flags page (z.flags page).clearLRU.clearActive ∧
      (z.putPageTestzero page lru).lists = update z.lists lru ((z.lists lru).erase page) ∧
      (z.putPageTestzero page lru).nrLru
        = update z.nrLru lru (z.nrLru lru - (z.flags page).hpageNrPages) ∧
      (z.putPageTestzero page lru).nrIsolated = z.nrIsolated ∧
      (z.putPageTestzero page lru).bug = z.bug := by
  have hsize : (z.flags page).clearLRU.clearActive.hpageNrPages = (z.flags page).hpageNrPages := rfl
  rw [putPageTestzero, if_pos hlast]
  dsimp only
  split <;> simp [delPageFromLruList, setFlags, setCount, hsize]

/-- The thread has put the page on a list and drops its reference. -/
theorem Inv.putPageTestzero {job : Job} (job' : Job) {page : PageId} (h : z.Inv pool)
    (hr : z.threads r = ⟨job, some (page, .drop)⟩) (hlru : (z.flags page).lru = true)
    (hown : job'.own = job.own)
    (hdead : job'.dead = if z.lastPut page = true then page :: job.dead else job.dead)
    (hflagged : job'.Flagged z.flags)
    (huncounted : ∀ lru, job'.uncounted lru = job.uncounted lru)
    (hisolated : ∀ file, job'.isolated file = job.isolated file) :
    ((z.putPageTestzero page (z.flags page).pageLru).setThread r ⟨job', none⟩).Inv pool := by
  have hsound : ∀ q own refs dead, own ≤ refs →
      z.Sound pool q (own + job.own.count q) (refs + (page :: job.own).count q)
        (dead + job.dead.count q) →
      (z.putPageTestzero page (z.flags page).pageLru).Sound pool q (own + job'.own.count q)
        (refs + job'.own.count q) (dead + job'.dead.count q) := by
    intro q own refs dead hle hs
    rw [List.count_cons, ← Nat.add_assoc] at hs
    simp only [beq_iff_eq] at hs
    have hnew := hs.putPageTestzero (z.flags page).pageLru (Nat.add_le_add_right hle _)
    have hcount : job'.dead.count q
        = job.dead.count q + if z.lastPut page = true ∧ page = q then 1 else 0 := by
      rw [hdead]
      by_cases hmine : z.lastPut page = true
      · simp [hmine, List.count_cons]
      · simp [hmine]
    rwa [hown, hcount, ← Nat.add_assoc]
  by_cases hlast : z.count page = 1
  · have hnot : page ∉ job'.own := by
      rw [hown]
      have hnot := (h.page page).not_own (.inl hlru) r
      rwa [hr] at hnot
    obtain ⟨hthreads, hflags, hlists, hnr, hiso, hbug⟩ :=
      z.putPageTestzero_last (z.flags page).pageLru hlast
    refine h.setThread_del (f := (z.flags page).clearLRU.clearActive) hr hthreads hlru rfl rfl
      hflags hlists hsound ?_ ?_ ?_ (hbug.trans h.bug)
    · refine hflagged.congr fun q hq => update_of_ne ?_ _ _
      rintro rfl
      exact hnot hq
    · intro lru
      dsimp only
      rw [hnr, huncounted]
      by_cases heq : (z.flags page).pageLru = lru
      · subst heq
        rw [update_self, if_pos rfl]
        omega
      · rw [update_of_ne (Ne.symm heq), if_neg heq]
        omega
    · intro file
      rw [hiso, hisolated]
  · have hput : z.putPageTestzero page (z.flags page).pageLru
        = z.setCount page (z.count page - 1) := by
      rw [Zone.putPageTestzero, if_neg hlast]
    rw [hput] at hsound ⊢
    refine h.setThread_same hr rfl rfl rfl hsound hflagged ?_ ?_ h.bug
    · intro lru
      exact congrArg (z.nrLru lru - ·) (huncounted lru)
    · intro file
      exact congrArg (fun n : Nat => z.nrIsolated file - n) (hisolated file)

omit [Fintype R] in
theorem setThread_setThread (z : Zone R) (r : R) (t t' : Reclaimer) :
    (z.setThread r t).setThread r t' = z.setThread r t' := by
  simp only [setThread, update_idem]

omit [Fintype R] in
theorem putPageTestzero_setThread (z : Zone R) (r : R) (t : Reclaimer) (page : PageId)
    (lru : LruList) : (z.setThread r t).putPageTestzero page lru
      = (z.putPageTestzero page lru).setThread r t := by
  unfold Zone.putPageTestzero setThread
  dsimp only
  split_ifs <;> rfl

/-- The rule for a turn that puts a page of the thread back on the list of
its flags and drops the reference: `mid` is what the thread has before it
knows whether the page is to be freed. -/
theorem Inv.putBack {job job' : Job} (mid : Job) {page : PageId} (h : z.Inv pool)
    (hr : z.threads r = ⟨job, none⟩) (hmem : page ∈ job.own) (hw : z.Frame w)
    (hthreads : w.threads = z.threads) (hcount : w.count = z.count)
    (hflags : w.flags = update z.flags page (z.flags page).setLRU)
    (hlists : w.lists = update z.lists (z.flags page).pageLru
      (z.lists (z.flags page).pageLru ++ [page]))
    (hnrLru : ∀ lru, w.nrLru lru - mid.uncounted lru = z.nrLru lru - job.uncounted lru
      + if (z.flags page).pageLru = lru then ((z.flags page).hpageNrPages : Int) else 0)
    (hnrIsolated : w.nrIsolated = z.nrIsolated) (hbug : w.bug = false)
    (hown : ∀ q, job.own.count q = mid.own.count q + if page = q then 1 else 0)
    (hmid : mid.dead = job.dead) (hown' : job'.own = mid.own)
    (hdead : job'.dead = if z.lastPut page = true then page :: job.dead else job.dead)
    (hflagged : mid.Flagged w.flags) (hflagged' : job'.Flagged w.flags)
    (huncounted : ∀ lru, job'.uncounted lru = mid.uncounted lru)
    (hisolated : ∀ file, mid.isolated file = job.isolated file)
    (hisolated' : ∀ file, job'.isolated file = mid.isolated file) :
    ((w.putPageTestzero page (z.flags page).pageLru).setThread r ⟨job', none⟩).Inv pool := by
  have hpageFlags : w.flags page = (z.flags page).setLRU := by rw [hflags, update_self]
  -- the page is on its list, and the thread has its reference still
  have hadded : (w.setThread r ⟨mid, some (page, .drop)⟩).Inv pool := by
    refine h.setThread_add page hr hthreads hmem (z.flags page).setLRU_lru
      (z.flags page).setLRU_huge hflags hlists ?_ (hflags ▸ hflagged) hnrLru ?_ hbug
    · intro q own refs dead _ hsound
      simp only [Reclaimer.own_none, Reclaimer.refs_none, Reclaimer.own_drop, Reclaimer.refs_some,
        hown, hmid, List.count_cons, beq_iff_eq, ← Nat.add_assoc] at hsound ⊢
      exact hsound.relist hw hcount fun q => by rw [hflags]; exact lru_update _ _ _ _
    · intro file
      dsimp only
      rw [hnrIsolated, hisolated]
  have hlast : (w.setThread r ⟨mid, some (page, .drop)⟩).lastPut page = z.lastPut page := by
    have hcompound : (w.flags page).compound = (z.flags page).compound := by rw [hpageFlags]; rfl
    simp only [lastPut, Zone.setThread, hcount, hcompound]
  have hdropped := hadded.putPageTestzero job' (update_self r _ w.threads)
    (congrArg PageFlags.lru hpageFlags) hown' (by rw [hlast, hdead, hmid]) hflagged' huncounted
    hisolated'
  have hlru : ((w.setThread r ⟨mid, some (page, .drop)⟩).flags page).pageLru
      = (z.flags page).pageLru := by
    change (w.flags page).pageLru = _
    rw [hpageFlags, PageFlags.setLRU_pageLru]
  rwa [hlru, putPageTestzero_setThread, setThread_setThread] at hdropped

/-! ## `putback_inactive_pages` -/

section Putback
variable {file : Bool} {nrTaken : Nat} {pages toFree : List PageId}

omit [Fintype R] [DecidableEq R] in
/-- The statistics are of no account. -/
theorem rotate_eq (z : Zone R) (f : PageFlags) :
    ∃ recentRotated, z.rotate f = { z with recentRotated := recentRotated } := by
  unfold rotate
  split
  · exact ⟨_, rfl⟩
  · exact ⟨z.recentRotated, rfl⟩

theorem Inv.putbackInactivePages {evictable : Bool} (h : z.Inv pool)
    (hr : z.threads r = ⟨.puttingBack file nrTaken pages toFree, none⟩)
    (hs : z.putbackInactivePages r file nrTaken pages toFree evictable = some z') :
    z'.Inv pool := by
  cases pages with
  | nil => cases hs
  | cons page rest =>
  have hown : page ∈ (z.threads r).own := by
    rw [hr]
    exact List.mem_cons_self
  have hlru := (h.page page).lru_of_own hown
  have hbug : (z.bugOn (z.flags page).lru).bug = false := by simp [bugOn, h.bug, hlru]
  cases evictable with
  | false =>
      cases hs
      refine h.setThread_same hr rfl rfl rfl ?_ trivial (fun _ => rfl) (fun _ => rfl) hbug
      intro q own refs dead _ hsound
      exact hsound.frame ⟨rfl, rfl, rfl, rfl, rfl⟩ rfl rfl
  | true =>
      cases hs
      set f := z.flags page with hf
      obtain ⟨recentRotated, hrotate⟩ :=
        rotate_eq (((z.bugOn f.lru).setFlags page f.setLRU).addPageToLruList page f.pageLru) f
      rw [hrotate]
      refine h.putBack (.puttingBack file nrTaken rest toFree) hr List.mem_cons_self
        ⟨rfl, rfl, rfl, rfl, rfl⟩ rfl rfl rfl rfl ?_ rfl hbug ?_ rfl rfl rfl trivial trivial
        (fun _ => rfl) (fun _ => rfl) (fun _ => rfl)
      · intro lru
        have hnr := addPageToLruList_nrLru (z.bugOn f.lru) page f.setLRU f.pageLru lru
        exact (sub_zero _).trans (hnr.trans (congrArg (· + _) (sub_zero _).symm))
      · intro q
        simp only [Job.own, List.count_cons, beq_iff_eq]

theorem Inv.putbackDone (h : z.Inv pool)
    (hr : z.threads r = ⟨.puttingBack file nrTaken pages toFree, none⟩)
    (hs : z.putbackDone r file nrTaken pages toFree = some z') : z'.Inv pool := by
  cases pages with
  | cons page rest => cases hs
  | nil =>
      cases hs
      refine h.setThread_same hr rfl rfl rfl ?_ trivial (fun _ => rfl) ?_ h.bug
      · intro q own refs dead _ hsound
        exact hsound.frame ⟨rfl, rfl, rfl, rfl, rfl⟩ rfl rfl
      · intro f
        simp only [Job.isolated]
        by_cases heq : file = f
        · subst heq
          rw [update_self, if_pos rfl]
          omega
        · rw [update_of_ne (Ne.symm heq), if_neg heq]

end Putback

/-! ## `shrink_active_list` -/

section Active
variable {file active : Bool} {nrTaken nrRotated pgmoved : Nat}
  {hold act inact list next toFree : List PageId}

theorem Inv.shrinkActiveList {evictable referenced exec : Bool} (h : z.Inv pool)
    (hr : z.threads r = ⟨.sorting file nrTaken nrRotated hold act inact, none⟩)
    (hs : z.shrinkActiveList r file nrTaken nrRotated hold act inact evictable referenced exec
      = some z') : z'.Inv pool := by
  cases hold with
  | nil => cases hs
  | cons page rest =>
  have hown : page ∈ (z.threads r).own := by
    rw [hr]
    exact List.mem_cons_self
  have hflagged := h.flagged r
  rw [hr] at hflagged
  obtain ⟨hheld, hinact⟩ := hflagged
  have hpage := hheld page List.mem_cons_self
  have hrest : Carries z.flags (.evictable file true) (rest ++ act) := hheld.tail
  cases evictable with
  | false =>
      cases hs
      refine h.handOver hr ?_ ?_ (fun _ => rfl) ⟨hrest, hinact⟩ (fun _ => rfl) (fun _ => rfl)
      · intro q
        rfl
      · intro q
        rfl
  | true =>
      simp only [Zone.shrinkActiveList, if_true] at hs
      split at hs
      · -- the page stays active
        cases hs
        refine h.handOver hr ?_ ?_ (fun _ => rfl) ?_ (fun _ => rfl) (fun _ => rfl)
        · intro q
          simp only [Reclaimer.own_none, Job.own, List.count_append, List.count_cons,
            List.count_nil]
          omega
        · intro q
          simp only [Reclaimer.refs_none, Job.own, List.count_append, List.count_cons,
            List.count_nil]
          omega
        · refine ⟨?_, hinact⟩
          rw [← List.append_assoc]
          refine hrest.append fun q hq => ?_
          rw [List.mem_singleton.mp hq]
          exact hpage
      · cases hs
        have hnot : page ∉ rest ++ act := by
          intro hmem
          have hone := (h.page page).own_le_one r
          have hpos := List.count_pos_iff.mpr hmem
          rw [hr] at hone
          simp only [Reclaimer.own_none, Job.own, List.cons_append, List.count_cons_self,
            List.count_append] at hone hpos
          omega
        obtain ⟨hunevictable, hfile, -⟩ := (PageFlags.pageLru_eq_evictable _).mp hpage
        have hpage' : (z.flags page).clearActive.pageLru = .evictable file false :=
          (PageFlags.pageLru_eq_evictable _).mpr ⟨hunevictable, hfile, rfl⟩
        refine h.setThread_keep page hr rfl (hr ▸ hown)
          ((z.flags page).clearActive_lru.trans ((h.page page).lru_of_own hown))
          (z.flags page).clearActive_huge rfl rfl ?_ ?_ (fun _ => rfl) (fun _ => rfl) h.bug
        · intro q own refs dead _ hsound
          have hcounts : (rest ++ act ++ (inact ++ [page])).count q
              = (page :: rest ++ act ++ inact).count q := by
            simp only [List.cons_append, List.count_append, List.count_cons, List.count_nil]
            omega
          simp only [Reclaimer.own_none, Reclaimer.refs_none, Job.own, Job.dead, hcounts]
            at hsound ⊢
          refine hsound.frame ⟨rfl, rfl, rfl, rfl, rfl⟩ ?_ rfl
          refine (lru_update _ _ _ _).trans ?_
          split
          · rename_i heq
            rw [← heq]
            rfl
          · rfl
        · refine ⟨hrest.update fun hmem => absurd hmem hnot, ?_⟩
          refine (hinact.update fun _ => hpage').append fun q hq => ?_
          rw [List.mem_singleton.mp hq, update_self]
          exact hpage'

theorem Inv.sorted (h : z.Inv pool)
    (hr : z.threads r = ⟨.sorting file nrTaken nrRotated hold act inact, none⟩)
    (hs : z.sorted r file nrTaken nrRotated hold act inact = some z') : z'.Inv pool := by
  cases hold with
  | cons page rest => cases hs
  | nil =>
      cases hs
      have hflagged := h.flagged r
      rw [hr] at hflagged
      refine h.setThread_same hr rfl rfl rfl ?_ ⟨hflagged.1, hflagged.2, nofun⟩ ?_ (fun _ => rfl)
        h.bug
      · intro q own refs dead _ hsound
        exact hsound.frame ⟨rfl, rfl, rfl, rfl, rfl⟩ rfl rfl
      · intro lru
        simp [Job.uncounted]

theorem Inv.moveActivePagesToLru (h : z.Inv pool)
    (hr : z.threads r = ⟨.moving file nrTaken active pgmoved list next toFree, none⟩)
    (hs : z.moveActivePagesToLru r file nrTaken active pgmoved list next toFree = some z') :
    z'.Inv pool := by
  cases list with
  | nil => cases hs
  | cons page rest =>
  have hown : page ∈ (z.threads r).own := by
    rw [hr]
    exact List.mem_cons_self
  have hflagged := h.flagged r
  rw [hr] at hflagged
  obtain ⟨hlist, hnext, hlast⟩ := hflagged
  have hpage := hlist page List.mem_cons_self
  have hlru := (h.page page).lru_of_own hown
  have hmid : Job.Flagged (update z.flags page (z.flags page).setLRU)
      (.moving file nrTaken active (pgmoved + (z.flags page).hpageNrPages) rest next toFree) := by
    refine ⟨hlist.tail.update fun _ => hpage, hnext.update fun hmem => ?_, hlast⟩
    exact hnext page hmem
  cases hs
  rw [← hpage]
  refine h.putBack (.moving file nrTaken active (pgmoved + (z.flags page).hpageNrPages) rest next
    toFree) hr List.mem_cons_self ⟨rfl, rfl, rfl, rfl, rfl⟩ rfl rfl rfl rfl ?_ rfl ?_ ?_ rfl rfl rfl
    hmid hmid (fun _ => rfl) (fun _ => rfl) (fun _ => rfl)
  · intro lru
    simp only [Job.uncounted, hpage, bugOn, setFlags]
    split <;> push_cast <;> omega
  · simp [bugOn, setFlags, h.bug, hlru]
  · intro q
    simp only [Job.own, List.cons_append, List.count_cons, beq_iff_eq]

theorem Inv.moveDone (h : z.Inv pool)
    (hr : z.threads r = ⟨.moving file nrTaken active pgmoved list next toFree, none⟩)
    (hs : z.moveDone r file nrTaken active pgmoved list next toFree = some z') : z'.Inv pool := by
  cases list with
  | cons page rest => cases hs
  | nil =>
  have hflagged := h.flagged r
  rw [hr] at hflagged
  -- what has been moved is counted now
  have hnrLru : ∀ lru, update z.nrLru (.evictable file active)
      (z.nrLru (.evictable file active) + pgmoved) lru
      = z.nrLru lru - Job.uncounted lru (.moving file nrTaken active pgmoved [] next toFree) := by
    intro lru
    simp only [Job.uncounted]
    by_cases heq : lru = .evictable file active
    · subst heq
      rw [update_self, if_pos rfl]
      omega
    · rw [update_of_ne heq, if_neg (Ne.symm heq)]
      omega
  simp only [Zone.moveDone] at hs
  split at hs
  · cases hs
    refine h.setThread_same hr rfl rfl rfl ?_
      ⟨hflagged.2.1, Carries.nil, fun _ => rfl⟩ ?_ (fun _ => rfl) h.bug
    · intro q own refs dead _ hsound
      simp only [Reclaimer.own_none, Reclaimer.refs_none, Job.own, Job.dead, List.nil_append,
        List.append_nil] at hsound ⊢
      exact hsound.frame ⟨rfl, rfl, rfl, rfl, rfl⟩ rfl rfl
    · intro lru
      refine (congrArg (· - _) (hnrLru lru)).trans ?_
      simp [Job.uncounted]
  · rename_i hactive
    have hempty : next = [] := hflagged.2.2 (by simpa using hactive)
    cases hs
    refine h.setThread_same hr rfl rfl rfl ?_ trivial ?_ ?_ h.bug
    · intro q own refs dead _ hsound
      simp only [Reclaimer.own_none, Reclaimer.refs_none, Job.own, Job.dead, hempty,
        List.nil_append]
        at hsound ⊢
      exact hsound.frame ⟨rfl, rfl, rfl, rfl, rfl⟩ rfl rfl
    · intro lru
      exact (congrArg (· - Job.uncounted lru (.releasing toFree)) (hnrLru lru)).trans (sub_zero _)
    · intro f
      simp only [Job.isolated]
      by_cases heq : file = f
      · subst heq
        rw [update_self, if_pos rfl]
        omega
      · rw [update_of_ne (Ne.symm heq), if_neg heq]

end Active

/-! ## `putback_lru_page` and `isolate_lru_page` -/

section Single
variable {job : Job} {page : PageId}

omit [DecidableEq R] in
/-- The loop the thread has left does not know of the page. -/
theorem Inv.flagged_redo (h : z.Inv pool) (hr : z.threads r = ⟨job, some (page, .redo)⟩)
    (f : PageFlags) : job.Flagged (update z.flags page f) := by
  have hflagged := h.flagged r
  have hone := (h.page page).own_le_one r
  rw [hr] at hflagged hone
  refine hflagged.congr fun q hq => update_of_ne ?_ _ _
  rintro rfl
  have hpos : 0 < job.own.count q := List.count_pos_iff.mpr hq
  rw [Reclaimer.own_redo, List.count_cons_self] at hone
  omega

theorem Inv.putbackLruPage {evictable : Bool} (h : z.Inv pool)
    (hr : z.threads r = ⟨job, some (page, .redo)⟩) :
    (z.putbackLruPage r job page evictable).Inv pool := by
  have hown : page ∈ (z.threads r).own := by
    rw [hr]
    exact List.mem_cons_self
  have hlru := (h.page page).lru_of_own hown
  have hbug : (z.bugOn (z.flags page).lru).bug = false := by simp [bugOn, h.bug, hlru]
  cases evictable with
  | true =>
      -- lru_cache_add
      refine h.setThread_keep page (f := (z.flags page).clearUnevictable) hr rfl
        (hr ▸ hown) hlru rfl rfl rfl ?_ (h.flagged_redo hr _) (fun _ => rfl) (fun _ => rfl) hbug
      intro q own refs dead _ hsound
      simp only [Reclaimer.own_redo, Reclaimer.refs_some, Reclaimer.own_drop, List.count_cons,
        beq_iff_eq,
        ← Nat.add_assoc] at hsound ⊢
      rw [sound_iff] at hsound ⊢
      by_cases hq : page = q
      · subst hq
        simp only [setFlags, setCount, bugOn, update_self, if_true, List.count_append,
          List.count_singleton_self] at hsound ⊢
        have hflag : (z.flags page).clearUnevictable.lru = (z.flags page).lru := rfl
        rw [hflag]
        omega
      · simp only [setFlags, setCount, bugOn, update_of_ne (Ne.symm hq), if_neg hq,
          List.count_append, List.count_cons_of_ne hq, List.count_nil] at hsound ⊢
        omega
  | false =>
      -- add_page_to_unevictable_list
      refine h.setThread_add page
        (f := (z.flags page).clearActive.setUnevictable.setLRU) hr rfl (hr ▸ hown) rfl rfl rfl rfl
        ?_ (h.flagged_redo hr _) ?_ (fun _ => rfl) hbug
      · intro q own refs dead _ hsound
        simp only [Reclaimer.own_redo, Reclaimer.refs_some, Reclaimer.own_recheck, List.count_cons,
          beq_iff_eq, ← Nat.add_assoc] at hsound ⊢
        exact hsound.relist ⟨rfl, rfl, rfl, rfl, rfl⟩ rfl fun q => lru_update _ _ _ _
      · intro lru
        have hnr := addPageToLruList_nrLru (z.bugOn (z.flags page).lru) page
          (z.flags page).clearActive.setUnevictable.setLRU .unevictable lru
        refine (congrArg (· - Job.uncounted lru job) hnr).trans ?_
        have hcount : (z.flags page).clearActive.setUnevictable.setLRU.hpageNrPages
            = (z.flags page).hpageNrPages := rfl
        have hlist : (z.flags page).clearActive.setUnevictable.setLRU.pageLru = .unevictable := rfl
        rw [hcount, hlist]
        exact add_sub_right_comm _ _ _

theorem Inv.recheckLruPage {evictable : Bool} (h : z.Inv pool)
    (hr : z.threads r = ⟨job, some (page, .recheck)⟩) :
    (z.recheckLruPage r job page evictable).Inv pool := by
  have hflagged := h.flagged r
  rw [hr] at hflagged
  unfold Zone.recheckLruPage
  dsimp only
  split
  · rename_i hboth
    have hlru : (z.flags page).lru = true := (Bool.and_eq_true_iff.mp hboth).2
    refine h.setThread_del (f := (z.flags page).clearLRU) hr rfl hlru rfl rfl rfl rfl ?_ ?_ ?_
      (fun _ => rfl) h.bug
    · intro q own refs dead _ hsound
      simp only [Reclaimer.own_recheck, Reclaimer.refs_some, Reclaimer.own_redo, List.count_cons,
        beq_iff_eq, ← Nat.add_assoc] at hsound ⊢
      rw [sound_iff] at hsound ⊢
      by_cases hq : page = q
      · subst hq
        simp only [delPageFromLruList, setFlags, update_self, if_true, hlru, Bool.toNat_true,
          PageFlags.clearLRU_lru, Bool.toNat_false] at hsound ⊢
        omega
      · simp only [delPageFromLruList, setFlags, update_of_ne (Ne.symm hq), if_neg hq]
          at hsound ⊢
        omega
    · refine hflagged.congr fun q hq => update_of_ne ?_ _ _
      rintro rfl
      have hnot := (h.page q).not_own (.inl hlru) r
      rw [hr] at hnot
      exact hnot hq
    · intro lru
      have hnr := delPageFromLruList_nrLru z page (z.flags page).clearLRU (z.flags page).pageLru lru
      refine (congrArg (· - Job.uncounted lru job) hnr).trans ?_
      exact sub_right_comm _ _ _
  · exact h.handOver hr (fun _ => rfl) (fun _ => rfl) (fun _ => rfl) hflagged (fun _ => rfl)
      (fun _ => rfl)

theorem Inv.putPage (h : z.Inv pool) (hr : z.threads r = ⟨job, some (page, .drop)⟩) :
    ((z.putPage page).setThread r ⟨job, none⟩).Inv pool := by
  have hflagged := h.flagged r
  rw [hr] at hflagged
  refine h.setThread_same hr rfl rfl rfl ?_ hflagged (fun _ => rfl) (fun _ => rfl) h.bug
  intro q own refs dead hle hsound
  simp only [Reclaimer.own_drop, Reclaimer.refs_some, Reclaimer.own_none, Reclaimer.refs_none,
    List.count_cons,
    beq_iff_eq, ← Nat.add_assoc] at hsound ⊢
  exact hsound.putPage (Nat.add_le_add_right hle _)

theorem Inv.isolateLruPage (h : z.Inv pool) (hr : z.threads r = ⟨.idle, none⟩)
    (hlru : (z.flags page).lru = true) (hothers : 0 < z.others page) :
    (z.isolateLruPage r page).Inv pool := by
  have hpos : 0 < z.count page := by
    have hcounted := (h.page page).counted
    omega
  refine h.setThread_del (f := (z.flags page).clearLRU) hr rfl hlru rfl rfl rfl rfl ?_ trivial ?_
    (fun _ => rfl) h.bug
  · intro q own refs dead _ hsound
    simp only [Reclaimer.own_none, Reclaimer.refs_none, Job.own, Job.dead, List.count_nil,
      List.count_singleton, beq_iff_eq, Nat.add_zero] at hsound ⊢
    exact hsound.isolate ⟨rfl, rfl, rfl, rfl, rfl⟩ hlru hpos rfl fun q => lru_update _ _ _ _
  · intro lru
    have hnr := delPageFromLruList_nrLru z page (z.flags page).clearLRU (z.flags page).pageLru lru
    refine (congrArg (· - (0 : Int)) hnr).trans ?_
    exact sub_right_comm _ _ _

end Single

/-! ## The others -/

section Others
variable {page : PageId}

omit [DecidableEq R] in
/-- The rule for a step of the others. -/
theorem Inv.env (h : z.Inv pool) (hw : w.threads = z.threads)
    (hpage : ∀ q, z.PageOk pool q → w.Sound pool q (z.own q) (z.refs q) (z.dead q))
    (hlisted : w.Listed)
    (hflags : ∀ r, ∀ q ∈ (z.threads r).job.own, w.flags q = z.flags q)
    (hnrLru : ∀ lru, w.nrLru lru - w.lruPages lru = z.nrLru lru - z.lruPages lru)
    (hnrIsolated : w.nrIsolated = z.nrIsolated) (hbug : w.bug = false) : w.Inv pool where
  page := by
    intro q
    have hsound := hpage q (h.page q)
    rwa [PageOk, Zone.own, Zone.refs, Zone.dead, hw]
  listed := hlisted
  flagged := by
    intro r
    rw [hw]
    exact (h.flagged r).congr (hflags r)
  nrLru := by
    intro lru
    have hbase := h.nrLru lru
    have hdiff := hnrLru lru
    rw [hw]
    omega
  nrIsolated := by
    intro file
    rw [hw, hnrIsolated]
    exact h.nrIsolated file
  bug := hbug

omit [DecidableEq R] in
/-- The same when only the counts change. -/
theorem Inv.env_count (h : z.Inv pool) (hw : w.threads = z.threads) (hflags : w.flags = z.flags)
    (hlists : w.lists = z.lists) (hnrLru : w.nrLru = z.nrLru)
    (hnrIsolated : w.nrIsolated = z.nrIsolated) (hbug : w.bug = z.bug)
    (hpage : ∀ q, z.PageOk pool q → w.Sound pool q (z.own q) (z.refs q) (z.dead q)) :
    w.Inv pool := by
  refine h.env hw hpage ?_ (fun _ q _ => by rw [hflags]) ?_ hnrIsolated (hbug.trans h.bug)
  · intro lru q
    rw [hlists, hflags]
    exact h.listed lru q
  · intro lru
    rw [hnrLru, lruPages, lruPages, hlists, hflags]

omit [DecidableEq R] in
theorem Inv.getPage (h : z.Inv pool) (hpos : 0 < z.count page) : (z.getPage page).Inv pool := by
  refine h.env_count rfl rfl rfl rfl rfl rfl fun q hq => ?_
  rw [PageOk, sound_iff] at hq
  rw [sound_iff]
  by_cases heq : page = q
  · subst heq
    simp only [Zone.getPage, setCount, update_self]
    omega
  · simp only [Zone.getPage, setCount, update_of_ne (Ne.symm heq)]
    omega

omit [DecidableEq R] in
theorem Inv.put (h : z.Inv pool) (hothers : 0 < z.others page) :
    Inv pool { z.putPage page with others := update z.others page (z.others page - 1) } := by
  refine h.env_count rfl rfl rfl rfl rfl rfl fun q hq => ?_
  rw [PageOk, sound_iff] at hq
  rw [sound_iff]
  by_cases heq : page = q
  · subst heq
    by_cases hlast : z.count page = 1
    · simp only [Zone.putPage, setCount, update_self, if_pos hlast, List.count_cons_self]
      omega
    · simp only [Zone.putPage, setCount, update_self, if_neg hlast]
      omega
  · have hdying : (if z.count page = 1 then page :: z.dying else z.dying).count q
        = z.dying.count q := by
      split
      · exact List.count_cons_of_ne heq
      · rfl
    simp only [Zone.putPage, setCount, update_of_ne (Ne.symm heq), hdying]
    omega

omit [DecidableEq R] in
theorem Inv.cacheAdd (h : z.Inv pool) (hcached : z.cached page = false)
    (hothers : 0 < z.others page) :
    Inv pool { z.setCount page (z.count page + 1) with cached := update z.cached page true } := by
  refine h.env_count rfl rfl rfl rfl rfl rfl fun q hq => ?_
  rw [PageOk, sound_iff] at hq
  rw [sound_iff]
  by_cases heq : page = q
  · subst heq
    rw [hcached, Bool.toNat_false] at hq
    simp only [setCount, update_self, Bool.toNat_true]
    omega
  · simp only [setCount, update_of_ne (Ne.symm heq)]
    omega

omit [DecidableEq R] in
theorem Inv.cacheDel (h : z.Inv pool) (hcached : z.cached page = true) :
    Inv pool { z with
      cached := update z.cached page false
      others := update z.others page (z.others page + 1) } := by
  refine h.env_count rfl rfl rfl rfl rfl rfl fun q hq => ?_
  rw [PageOk, sound_iff] at hq
  rw [sound_iff]
  by_cases heq : page = q
  · subst heq
    rw [hcached, Bool.toNat_true] at hq
    simp only [update_self, Bool.toNat_false]
    omega
  · simp only [update_of_ne (Ne.symm heq)]
    omega

omit [DecidableEq R] in
theorem Inv.lruCacheAdd (h : z.Inv pool) (hlru : (z.flags page).lru = false) (hown : z.own page = 0)
    (hpagevec : page ∉ z.pagevec) (hothers : 0 < z.others page) :
    Inv pool { z.setCount page (z.count page + 1) with pagevec := z.pagevec ++ [page] } := by
  refine h.env_count rfl rfl rfl rfl rfl rfl fun q hq => ?_
  rw [PageOk, sound_iff] at hq
  rw [sound_iff]
  by_cases heq : page = q
  · subst heq
    rw [hlru, hown, List.count_eq_zero.mpr hpagevec, Bool.toNat_false] at hq
    simp only [setCount, update_self, hlru, hown, Bool.toNat_false, List.count_append,
      List.count_singleton_self,
      List.count_eq_zero.mpr hpagevec]
    omega
  · simp only [setCount, update_of_ne (Ne.symm heq), List.count_append,
      List.count_cons_of_ne heq, List.count_nil]
    omega

omit [DecidableEq R] in
theorem PageOk.release (hq : z.PageOk pool page) (hdying : page ∈ z.dying) :
    (z.flags page).lru.toNat ≤ 1 ∧ z.own page = 0 ∧ z.refs page = 0 ∧ z.dead page = 0 ∧
      z.pagevec.count page = 0 ∧ z.free.count page = 0 ∧ z.dying.count page = 1 ∧
      z.count page = 0 ∧ z.others page = 0 ∧ (z.cached page).toNat = 0 := by
  have hpos := List.count_pos_iff.mpr hdying
  have hle := Bool.toNat_le (z.flags page).lru
  rw [PageOk, sound_iff] at hq
  omega

omit [DecidableEq R] in
theorem Inv.releasePage (h : z.Inv pool) (hdying : page ∈ z.dying) :
    (z.releasePage page).Inv pool := by
  obtain ⟨-, hown, hrefs, hdead, hpagevec, hfree, hone, hcount, hothers, hcached⟩ :=
    (h.page page).release hdying
  unfold Zone.releasePage
  dsimp only
  by_cases hlru : (z.flags page).lru = true
  · rw [if_pos hlru]
    set f := (z.flags page).clearLRU.clearActive.clearUnevictable with hf
    have hmem : page ∈ z.lists (z.flags page).pageLru := h.listed.mem_iff.mpr ⟨hlru, rfl⟩
    refine h.env rfl ?_ (h.listed.del (f := f) hlru rfl rfl rfl) ?_ ?_ rfl h.bug
    · intro q hq
      rw [PageOk, sound_iff] at hq
      rw [sound_iff]
      by_cases heq : page = q
      · subst heq
        have hflag : f.lru = false := rfl
        simp [delPageFromLruList, setFlags, hflag, hown, hrefs, hdead, hpagevec, hfree, hone,
          hcount, hothers, hcached]
      · simp only [delPageFromLruList, setFlags, update_of_ne (Ne.symm heq),
          List.count_erase_of_ne (Ne.symm heq), List.count_append, List.count_cons_of_ne heq,
          List.count_nil]
        omega
    · intro r q hq
      refine update_of_ne ?_ _ _
      rintro rfl
      exact (h.page q).not_own (.inl hlru) r hq
    · intro lru
      have hnr := delPageFromLruList_nrLru z page f (z.flags page).pageLru lru
      exact balance_del (f := f) hmem rfl rfl rfl hnr
  · rw [if_neg hlru]
    refine h.env_count rfl rfl rfl rfl rfl rfl fun q hq => ?_
    rw [PageOk, sound_iff] at hq
    rw [sound_iff]
    by_cases heq : page = q
    · subst heq
      rw [Bool.not_eq_true] at hlru
      simp [hlru, hown, hrefs, hdead, hpagevec, hfree, hone, hcount, hothers, hcached]
    · simp only [List.count_erase_of_ne (Ne.symm heq), List.count_append,
        List.count_cons_of_ne heq, List.count_nil]
      omega

omit [DecidableEq R] in
theorem Inv.drainPage (h : z.Inv pool) (hpagevec : page ∈ z.pagevec) :
    (z.drainPage page).Inv pool := by
  have hpos := List.count_pos_iff.mpr hpagevec
  have hlru : (z.flags page).lru = false := by
    have hplace := (h.page page).place
    cases hlru : (z.flags page).lru with
    | false => rfl
    | true =>
        rw [hlru, Bool.toNat_true] at hplace
        omega
  set f := (z.flags page).setLRU with hf
  have hbug : (z.bug || (z.flags page).lru) = false := by rw [h.bug, hlru]; rfl
  refine h.env rfl ?_ (h.listed.add (f := f) hlru rfl rfl rfl) ?_ ?_ rfl hbug
  · intro q hq
    -- the reference of the pagevec is the drain's to drop
    refine Sound.putPage ?_ hq.held
    rw [PageOk, sound_iff] at hq
    rw [sound_iff]
    by_cases heq : page = q
    · subst heq
      rw [hlru, Bool.toNat_false] at hq
      simp only [addPageToLruList, setFlags, bugOn, update_self, if_true, List.count_erase_self,
        PageFlags.setLRU_lru, Bool.toNat_true]
      omega
    · simp only [addPageToLruList, setFlags, bugOn, update_of_ne (Ne.symm heq), if_neg heq,
        List.count_erase_of_ne (Ne.symm heq)]
      omega
  · intro r q hq
    refine update_of_ne ?_ _ _
    rintro rfl
    exact (h.page q).not_own (.inr (.inl hpagevec)) r hq
  · intro lru
    have hnr := addPageToLruList_nrLru z page f (z.flags page).pageLru lru
    exact balance_add (f := f) rfl rfl rfl hnr

omit [DecidableEq R] in
theorem Inv.alloc {f : PageFlags} (h : z.Inv pool) (hfree : page ∈ z.free) :
    Inv pool { (z.setFlags page f.clearLRU.clearUnevictable).setCount page 1 with
      others := update z.others page 1
      free := z.free.erase page } := by
  have hpos := List.count_pos_iff.mpr hfree
  have hlru : (z.flags page).lru = false := by
    have hplace := (h.page page).place
    cases hlru : (z.flags page).lru with
    | false => rfl
    | true =>
        rw [hlru, Bool.toNat_true] at hplace
        omega
  have hnot : ∀ lru, page ∉ z.lists lru := by
    intro lru hmem
    rw [(h.listed.mem_iff.mp hmem).1] at hlru
    cases hlru
  refine h.env rfl ?_ (h.listed.flags (f := f.clearLRU.clearUnevictable) hlru rfl rfl rfl) ?_ ?_
    rfl h.bug
  · intro q hq
    rw [PageOk, sound_iff] at hq
    rw [sound_iff]
    by_cases heq : page = q
    · subst heq
      have hflag : f.clearLRU.clearUnevictable.lru = false := rfl
      simp only [setFlags, setCount, update_self, hflag, Bool.toNat_false, List.count_erase_self]
      omega
    · simp only [setFlags, setCount, update_of_ne (Ne.symm heq),
        List.count_erase_of_ne (Ne.symm heq)]
      omega
  · intro r q hq
    refine update_of_ne ?_ _ _
    rintro rfl
    exact (h.page q).not_own (.inr (.inr hfree)) r hq
  · intro lru
    have hpages : ((z.lists lru).map fun q =>
        (update z.flags page f.clearLRU.clearUnevictable q).hpageNrPages)
        = (z.lists lru).map fun q => (z.flags q).hpageNrPages := by
      refine List.map_congr_left fun q hq => ?_
      rw [update_of_ne]
      rintro rfl
      exact hnot lru hq
    exact congrArg (fun sizes : List Nat => z.nrLru lru - (sizes.sum : Int)) hpages

end Others

/-! ## Every step -/

theorem Inv.runJob {job : Job} {c : Choice} (h : z.Inv pool) (hr : z.threads r = ⟨job, none⟩)
    (hs : z.runJob r job c = some z') : z'.Inv pool := by
  have hflagged := h.flagged r
  rw [hr] at hflagged
  cases job with
  | idle => cases c <;> cases hs
  | holding page =>
      cases c with
      | leave =>
          cases hs
          exact h.handOver hr (fun _ => rfl) (fun _ => rfl) (fun _ => rfl) trivial (fun _ => rfl)
            (fun _ => rfl)
      | _ => cases hs
  | isolating i =>
      cases c with
      | isolate t => exact h.isolateLruPages hr hs
      | leave => exact h.isolated hr hs
      | _ => cases hs
  | shrinking file nrTaken sc run =>
      cases c with
      | turn t => exact h.shrinkPageList hr hs
      | leave => exact h.shrunk hr hs
      | _ => cases hs
  | puttingBack file nrTaken pages toFree =>
      cases c with
      | putback e => exact h.putbackInactivePages hr hs
      | leave => exact h.putbackDone hr hs
      | _ => cases hs
  | sorting file nrTaken nrRotated hold act inact =>
      cases c with
      | sort e referenced exec => exact h.shrinkActiveList hr hs
      | leave => exact h.sorted hr hs
      | _ => cases hs
  | moving file nrTaken active pgmoved list next toFree =>
      cases c with
      | move => exact h.moveActivePagesToLru hr hs
      | leave => exact h.moveDone hr hs
      | _ => cases hs
  | releasing toFree =>
      cases c with
      | leave =>
          cases hs
          refine h.setThread_same hr rfl rfl rfl ?_ trivial (fun _ => rfl) (fun _ => rfl) h.bug
          intro q own refs dead _ hsound
          rw [sound_iff] at hsound ⊢
          simp only [Reclaimer.own_none, Reclaimer.refs_none, Job.own, Job.dead, List.count_append,
            List.count_nil] at hsound ⊢
          omega
      | _ => cases hs

theorem Inv.runPutback {job : Job} {page : PageId} {evictable : Bool} {pc : PutbackPc}
    (h : z.Inv pool) (hr : z.threads r = ⟨job, some (page, pc)⟩) :
    (z.runPutback r job page evictable pc).Inv pool := by
  cases pc with
  | redo => exact h.putbackLruPage hr
  | recheck => exact h.recheckLruPage hr
  | drop => exact h.putPage hr

/-- **Every step keeps the invariant.** -/
theorem Inv.of_step {l : LruLabel R} (h : z.Inv pool) (hs : z.step l = some z') : z'.Inv pool := by
  cases l with
  | start r i => exact h.start hs
  | run r c =>
      simp only [step] at hs
      split at hs
      · rename_i job hr
        exact h.runJob hr hs
      · cases hs
  | putback r e =>
      simp only [step] at hs
      split at hs
      · cases hs
      · rename_i job page pc hr
        cases hs
        exact h.runPutback hr
  | isolatePage r page =>
      simp only [step] at hs
      split at hs
      · rename_i hr
        split at hs
        · rename_i hguard
          cases hs
          exact h.isolateLruPage hr hguard.1 hguard.2
        · cases hs
      · cases hs
  | get page =>
      simp only [step, Option.ite_none_right_eq_some, Option.some.injEq] at hs
      exact hs.2 ▸ h.getPage hs.1
  | put page =>
      simp only [step, Option.ite_none_right_eq_some, Option.some.injEq] at hs
      exact hs.2 ▸ h.put hs.1
  | cacheAdd page =>
      simp only [step, Option.ite_none_right_eq_some, Option.some.injEq] at hs
      exact hs.2 ▸ h.cacheAdd hs.1.1 hs.1.2
  | cacheDel page =>
      simp only [step, Option.ite_none_right_eq_some, Option.some.injEq] at hs
      exact hs.2 ▸ h.cacheDel hs.1
  | release page =>
      simp only [step, Option.ite_none_right_eq_some, Option.some.injEq] at hs
      exact hs.2 ▸ h.releasePage hs.1
  | lruCacheAdd page =>
      simp only [step, Option.ite_none_right_eq_some, Option.some.injEq] at hs
      obtain ⟨⟨hlru, hown, hpagevec, hothers⟩, rfl⟩ := hs
      exact h.lruCacheAdd hlru hown hpagevec hothers
  | drain page =>
      simp only [step, Option.ite_none_right_eq_some, Option.some.injEq] at hs
      exact hs.2 ▸ h.drainPage hs.1
  | alloc page f =>
      simp only [step, Option.ite_none_right_eq_some, Option.some.injEq] at hs
      exact hs.2 ▸ h.alloc hs.1

omit [DecidableEq R] in
theorem Inv.boot {pages : List PageId} (hnodup : pages.Nodup) (v : Reclaim) :
    (Zone.boot pages v : Zone R).Inv pages where
  page := by
    intro q
    have hle : pages.count q ≤ 1 := List.nodup_iff_count_le_one.mp hnodup q
    have hown : (Zone.boot pages v : Zone R).own q = 0 := tally_zero fun _ => rfl
    have hrefs : (Zone.boot pages v : Zone R).refs q = 0 := tally_zero fun _ => rfl
    have hdead : (Zone.boot pages v : Zone R).dead q = 0 := tally_zero fun _ => rfl
    rw [PageOk, hown, hrefs, hdead, sound_iff]
    simpa [Zone.boot] using hle
  listed := fun _ _ => rfl
  flagged := fun _ => trivial
  nrLru := by
    intro lru
    have hzero : tally (fun t => t.job.uncounted lru) (Zone.boot pages v : Zone R).threads = 0 :=
      tally_zero fun _ => rfl
    rw [hzero]
    rfl
  nrIsolated := by
    intro file
    have hzero : tally (fun t => t.job.isolated file) (Zone.boot pages v : Zone R).threads = 0 :=
      tally_zero fun _ => rfl
    rw [hzero]
    rfl
  bug := rfl

/-! ## Every run -/

/-- The zones that the threads and the others can make of so many free
pages. -/
def Reachable (pages : List PageId) (v : Reclaim) (z : Zone R) : Prop :=
  Runs.Reach step (fun _ _ => True) (boot pages v) z

theorem Reachable.inv {pages : List PageId} {v : Reclaim} (h : Reachable pages v z)
    (hnodup : pages.Nodup) : z.Inv pages :=
  Runs.Reach.invariant h (.boot hnodup v) fun _ _ _ hinv _ hs => hinv.of_step hs

/-- **Who has a page.** In every run its `_count` is the number of
references there are to it; it is on the list its flags name or with one
holder, never with two; it comes to the allocator once, and only when
nobody refers to it; a page of the zone nobody refers to is on its way to
the allocator or there, so none is lost; and no `BUG` fires. A page on its
way may still be on its list: `__page_cache_release` takes it off. -/
theorem pages_owned {pages : List PageId} {v : Reclaim} (hnodup : pages.Nodup)
    (h : Reachable pages v z) :
    z.bug = false ∧ ∀ q,
      z.count q = z.refs q + z.pagevec.count q + (z.cached q).toNat + z.others q ∧
        (∀ lru, (z.lists lru).count q
          = if (z.flags q).lru = true ∧ (z.flags q).pageLru = lru then 1 else 0) ∧
        (z.flags q).lru.toNat + z.own q + z.pagevec.count q + z.dead q + z.free.count q ≤ 1 ∧
        z.dying.count q + z.dead q + z.free.count q ≤ 1 ∧
        (q ∈ z.dying ∨ 0 < z.dead q ∨ q ∈ z.free →
          z.refs q = 0 ∧ z.own q = 0 ∧ q ∉ z.pagevec ∧ z.cached q = false ∧ z.others q = 0) ∧
        (q ∈ pages → z.count q = 0 → q ∈ z.dying ∨ 0 < z.dead q ∨ q ∈ z.free) := by
  have hinv := h.inv hnodup
  refine ⟨hinv.bug, fun q => ?_⟩
  have hpage := hinv.page q
  exact ⟨hpage.counted, fun lru => hinv.listed lru q, hpage.place, hpage.leaving,
    hpage.unreferenced, hpage.leaves⟩

/-- **The counters of the zone.** In every run `NR_LRU_BASE` counts the
pages on the lists, and those a thread has moved and not counted yet, and
`NR_ISOLATED` what the threads have taken; so once no thread is at work
the first is exact and the second is back at 0, and every reference a
thread has taken is dropped. -/
theorem counters_exact {pages : List PageId} {v : Reclaim} (hnodup : pages.Nodup)
    (h : Reachable pages v z) :
    (∀ lru, z.nrLru lru = z.lruPages lru + tally (fun t => t.job.uncounted lru) z.threads) ∧
      (∀ file, z.nrIsolated file = tally (fun t => t.job.isolated file) z.threads) ∧
      ((∀ r, z.threads r = {}) → (∀ lru, z.nrLru lru = z.lruPages lru) ∧
        (∀ file, z.nrIsolated file = 0) ∧
        ∀ q, z.count q = z.pagevec.count q + (z.cached q).toNat + z.others q) := by
  have hinv := h.inv hnodup
  refine ⟨hinv.nrLru, hinv.nrIsolated, fun hidle => ⟨fun lru => ?_, fun file => ?_, fun q => ?_⟩⟩
  · have hzero : tally (fun t => t.job.uncounted lru) z.threads = 0 :=
      tally_zero fun r => by rw [hidle r]; rfl
    rw [hinv.nrLru, hzero, add_zero]
  · have hzero : tally (fun t => t.job.isolated file) z.threads = 0 :=
      tally_zero fun r => by rw [hidle r]; rfl
    rw [hinv.nrIsolated, hzero, Nat.cast_zero]
  · have hzero : z.refs q = 0 := tally_zero fun r => by rw [hidle r]; rfl
    have hcounted := (hinv.page q).counted
    omega

/-! ### One reclaimed page and one that is put back -/

/-- The answers for a clean page nobody uses. -/
def cleanPage : PageTry where
  trylock := true
  evictable := true
  mapped := false
  swapCache := false
  checkDirty := false
  checkWriteback := false
  mapping := true
  congested := false
  pageReclaim := false
  writeback := false
  zoneWriteback := false
  references := .reclaim
  anon := false
  addToSwap := false
  swapMapping := false
  mappedStill := false
  unmap := .success
  dirty := false
  fileCache := true
  zoneDirty := false
  priv := 0
  kmap := none
  pageout := .clean
  stillOut := false
  relock := false
  dirtyAgain := false
  mappingAfter := false
  hasPrivate := false
  release := false
  lastRef := false
  putTestzero := false
  removeMapping := true

/-- Two file pages come onto the inactive list; the first thread frees one
and puts the other back, which is referenced, on the active list, while
the second thread looks at the active list. -/
def oneCycle : List (LruLabel (Fin 2)) :=
  let sc : ScanControl := ⟨true, true, true, true, false, true, true⟩
  let asked : IsolateTry := ⟨false, false, true, false, false⟩
  let bring (page : PageId) : List (LruLabel (Fin 2)) :=
    [.alloc page { file := true }, .cacheAdd page, .lruCacheAdd page, .drain page, .put page]
  bring 1 ++ bring 2 ++
    [LruLabel.start 0 { active := false, file := true, sc := sc, nrToScan := 32 },
      .start 1 { active := true, file := true, sc := sc, nrToScan := 32 },
      .run 0 (.isolate asked), .run 0 (.isolate asked), .run 0 .leave,
      .run 0 (.turn cleanPage),
      .run 0 (.turn { cleanPage with references := .activate, removeMapping := false }),
      .run 0 .leave, .run 0 (.putback true), .run 1 (.isolate asked), .run 0 .leave,
      .run 1 .leave, .run 1 (.sort true false false), .run 0 .leave, .run 1 .leave, .run 1 .leave,
      .run 1 .move, .run 1 .leave, .run 1 .leave]

theorem pages_owned_oneCycle : ∃ z : Zone (Fin 2),
    Reachable [1, 2] (.boot fun _ => ⟨0, fun _ => 0⟩) z ∧ z.bug = false ∧ 1 ∈ z.free ∧
      z.others 1 = 0 ∧ (z.count 1 = 0 → 1 ∈ z.dying ∨ 0 < z.dead 1 ∨ 1 ∈ z.free) ∧
      z.count 2 = z.refs 2 + z.pagevec.count 2 + (z.cached 2).toNat + z.others 2 := by
  have hexec : (Runs.exec step (fun _ _ => True)
      (boot [1, 2] (.boot fun _ => ⟨0, fun _ => 0⟩) : Zone (Fin 2)) oneCycle).any
        (fun z => z.free == [1]) = true := by
    decide +kernel
  cases hs : Runs.exec step (fun _ _ => True)
      (boot [1, 2] (.boot fun _ => ⟨0, fun _ => 0⟩) : Zone (Fin 2)) oneCycle with
  | none =>
      rw [hs] at hexec
      cases hexec
  | some z =>
      rw [hs, Option.any_some, beq_iff_eq] at hexec
      have hreach : Reachable [1, 2] (.boot fun _ => ⟨0, fun _ => 0⟩) z := Runs.reach_of_exec hs
      obtain ⟨hbug, hpages⟩ := pages_owned (by decide) hreach
      have hfree : 1 ∈ z.free := hexec ▸ List.mem_singleton_self 1
      obtain ⟨-, -, -, -, hunreferenced, hleaves⟩ := hpages 1
      exact ⟨z, hreach, hbug, hfree, (hunreferenced (.inr (.inr hfree))).2.2.2.2,
        hleaves List.mem_cons_self, (hpages 2).1⟩

theorem counters_exact_oneCycle : ∃ z : Zone (Fin 2),
    Reachable [1, 2] (.boot fun _ => ⟨0, fun _ => 0⟩) z ∧
      z.lists (.evictable true false) = [2] ∧
      z.nrLru (.evictable true false) = z.lruPages (.evictable true false)
        + tally (fun t => t.job.uncounted (.evictable true false)) z.threads := by
  have hexec : (Runs.exec step (fun _ _ => True)
      (boot [1, 2] (.boot fun _ => ⟨0, fun _ => 0⟩) : Zone (Fin 2)) oneCycle).any
        (fun z => z.lists (.evictable true false) == [2]) = true := by
    decide +kernel
  cases hs : Runs.exec step (fun _ _ => True)
      (boot [1, 2] (.boot fun _ => ⟨0, fun _ => 0⟩) : Zone (Fin 2)) oneCycle with
  | none =>
      rw [hs] at hexec
      cases hexec
  | some z =>
      rw [hs, Option.any_some, beq_iff_eq] at hexec
      have hreach : Reachable [1, 2] (.boot fun _ => ⟨0, fun _ => 0⟩) z := Runs.reach_of_exec hs
      exact ⟨z, hreach, hexec, (counters_exact (by decide) hreach).1 _⟩

end Zone

end MegaVM
