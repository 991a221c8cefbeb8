import MegaVM.Vmscan.Lru
import MegaVM.Lib.Runs

/-!
# Who has a page under reclaim

What holds of every page in every reachable state of a zone: it is in one
place, its `_count` is the number of references there are to it, and it is
at the allocator or on the way there exactly when there are none.
-/

namespace MegaVM

open Function Tally

namespace Zone

/-! ## One page -/

section Page
variable {R : Type}

/-- The page `q` when the threads have it on `own` lists, have `refs`
references to it, and have it on `dead` lists of pages to free; `pool` is
what the allocator had at first. -/
structure Sound (pool : List PageId) (z : Zone R) (q : PageId) (own refs dead : Nat) : Prop where
  place : (z.flags q).lru.toNat + own + z.pagevec.count q + dead + z.free.count q ≤ 1
  leaving : z.dying.count q + dead + z.free.count q ≤ 1
  unused : 0 < z.dying.count q + dead + z.free.count q → z.count q = 0
  held : own ≤ refs
  counted : z.count q = refs + z.pagevec.count q + (z.cached q).toNat + z.others q
  /-- A page without references is on its way to the allocator. -/
  kept : 0 < pool.count q → 0 < z.count q + z.dying.count q + dead + z.free.count q

/-- What most steps leave alone. -/
structure Frame (z w : Zone R) : Prop where
  cached : w.cached = z.cached
  others : w.others = z.others
  pagevec : w.pagevec = z.pagevec
  dying : w.dying = z.dying
  free : w.free = z.free

variable {z w : Zone R} {pool : List PageId} {page q : PageId} {own refs dead : Nat}

theorem sound_iff : z.Sound pool q own refs dead ↔
    (z.flags q).lru.toNat + own + z.pagevec.count q + dead + z.free.count q ≤ 1 ∧
      z.dying.count q + dead + z.free.count q ≤ 1 ∧
      (0 < z.dying.count q + dead + z.free.count q → z.count q = 0) ∧ own ≤ refs ∧
      z.count q = refs + z.pagevec.count q + (z.cached q).toNat + z.others q ∧
      (0 < pool.count q → 0 < z.count q + z.dying.count q + dead + z.free.count q) :=
  ⟨fun ⟨h₁, h₂, h₃, h₄, h₅, h₆⟩ => ⟨h₁, h₂, h₃, h₄, h₅, h₆⟩,
    fun ⟨h₁, h₂, h₃, h₄, h₅, h₆⟩ => ⟨h₁, h₂, h₃, h₄, h₅, h₆⟩⟩

/-- Nobody refers to a page that is on its way to the allocator. -/
theorem Sound.unreferenced (h : z.Sound pool q own refs dead)
    (hgone : q ∈ z.dying ∨ 0 < dead ∨ q ∈ z.free) :
    refs = 0 ∧ own = 0 ∧ q ∉ z.pagevec ∧ z.cached q = false ∧ z.others q = 0 := by
  obtain ⟨-, -, hunused, hheld, hcounted, -⟩ := h
  have hpos : 0 < z.dying.count q + dead + z.free.count q := by
    rcases hgone with hq | hq | hq
    · have := List.count_pos_iff.mpr hq
      omega
    · omega
    · have := List.count_pos_iff.mpr hq
      omega
  rw [hunused hpos] at hcounted
  refine ⟨by omega, by omega, List.count_eq_zero.mp (by omega), ?_, by omega⟩
  cases hcached : z.cached q with
  | false => rfl
  | true =>
      rw [hcached, Bool.toNat_true] at hcounted
      omega

/-- A page of the pool that nobody refers to is not lost. -/
theorem Sound.leaves (h : z.Sound pool q own refs dead) (hq : q ∈ pool) (hzero : z.count q = 0) :
    q ∈ z.dying ∨ 0 < dead ∨ q ∈ z.free := by
  have hkept := h.kept (List.count_pos_iff.mpr hq)
  simp only [← List.count_pos_iff]
  omega

theorem Sound.frame (h : z.Sound pool q own refs dead) (hw : z.Frame w)
    (hlru : (w.flags q).lru = (z.flags q).lru) (hcount : w.count q = z.count q) :
    w.Sound pool q own refs dead := by
  rw [sound_iff] at h ⊢
  rwa [hlru, hcount, hw.cached, hw.others, hw.pagevec, hw.dying, hw.free]

/-- The page is taken off its list, with a reference. -/
theorem Sound.isolate (h : z.Sound pool q own refs dead) (hw : z.Frame w)
    (hlru : (z.flags page).lru = true) (hpos : 0 < z.count page)
    (hcount : w.count = update z.count page (z.count page + 1))
    (hflags : ∀ q, (w.flags q).lru = if page = q then false else (z.flags q).lru) :
    w.Sound pool q (own + if page = q then 1 else 0) (refs + if page = q then 1 else 0) dead := by
  rw [sound_iff] at h ⊢
  rw [hflags, hcount, hw.cached, hw.others, hw.pagevec, hw.dying, hw.free]
  by_cases hq : page = q
  · subst hq
    rw [hlru, Bool.toNat_true] at h
    simp only [update_self, if_true, Bool.toNat_false]
    omega
  · simp only [update_of_ne (Ne.symm hq), if_neg hq]
    omega

/-- It comes onto a list again, and the thread keeps its reference. -/
theorem Sound.relist
    (h : z.Sound pool q (own + if page = q then 1 else 0) (refs + if page = q then 1 else 0) dead)
    (hw : z.Frame w) (hcount : w.count = z.count)
    (hflags : ∀ q, (w.flags q).lru = if page = q then true else (z.flags q).lru) :
    w.Sound pool q own (refs + if page = q then 1 else 0) dead := by
  rw [sound_iff] at h ⊢
  rw [hflags, hcount, hw.cached, hw.others, hw.pagevec, hw.dying, hw.free]
  by_cases hq : page = q
  · subst hq
    simp only [if_true, Bool.toNat_true] at h ⊢
    omega
  · simp only [if_neg hq, Nat.add_zero] at h ⊢
    omega

/-- A thread drops its reference; the last one dooms the page. -/
theorem Sound.putPage (h : z.Sound pool q own (refs + if page = q then 1 else 0) dead)
    (hheld : own ≤ refs) : (z.putPage page).Sound pool q own refs dead := by
  rw [sound_iff] at h ⊢
  by_cases hq : page = q
  · subst hq
    rw [if_pos rfl] at h
    by_cases hlast : z.count page = 1
    · simp only [Zone.putPage, setCount, update_self, if_pos hlast, List.count_cons_self]
      omega
    · simp only [Zone.putPage, setCount, update_self, if_neg hlast]
      omega
  · rw [if_neg hq] at h
    have hdying : (if z.count page = 1 then page :: z.dying else z.dying).count q
        = z.dying.count q := by
      split
      · exact List.count_cons_of_ne hq
      · rfl
    simp only [Zone.putPage, setCount, update_of_ne (Ne.symm hq), hdying]
    omega

/-- And so it does under `lru_lock`, where the page is taken off its list. -/
theorem Sound.putPageTestzero (lru : LruList)
    (h : z.Sound pool q own (refs + if page = q then 1 else 0) dead) (hheld : own ≤ refs) :
    (z.putPageTestzero page lru).Sound pool q own refs
      (dead + if z.lastPut page = true ∧ page = q then 1 else 0) := by
  rw [sound_iff] at h ⊢
  by_cases hlast : z.count page = 1
  · have hmine : z.lastPut page = !(z.flags page).compound := by
      rw [lastPut, hlast]
      rfl
    rw [Zone.putPageTestzero, if_pos hlast, hmine]
    by_cases hq : page = q
    · subst hq
      rw [if_pos rfl] at h
      cases hcompound : (z.flags page).compound with
      | true =>
          simp only [delPageFromLruList, setFlags, setCount, update_self, hcompound,
            Bool.not_true, Bool.false_eq_true, false_and, if_false, if_true,
            PageFlags.clearActive_lru, PageFlags.clearLRU_lru, Bool.toNat_false, List.count_append,
            List.count_singleton_self, implies_true, true_and]
          omega
      | false =>
          simp only [delPageFromLruList, setFlags, setCount, update_self, hcompound,
            Bool.not_false, Bool.false_eq_true, and_self, if_false, if_true,
            PageFlags.clearActive_lru, PageFlags.clearLRU_lru, Bool.toNat_false, implies_true,
            true_and]
          omega
    · simp only [if_neg hq, Nat.add_zero] at h
      simp only [hq, and_false, if_false]
      cases hcompound : (z.flags page).compound with
      | true =>
          simp only [delPageFromLruList, setFlags, setCount,
            update_of_ne (Ne.symm hq), if_true, List.count_append, List.count_cons_of_ne hq,
            List.count_nil]
          omega
      | false =>
          simp only [delPageFromLruList, setFlags, setCount,
            update_of_ne (Ne.symm hq), Bool.false_eq_true, if_false]
          omega
  · have hmine : z.lastPut page = false := by simp [lastPut, hlast]
    rw [Zone.putPageTestzero, if_neg hlast, hmine, if_neg fun hand => Bool.false_ne_true hand.1]
    by_cases hq : page = q
    · subst hq
      rw [if_pos rfl] at h
      simp only [setCount, update_self]
      omega
    · rw [if_neg hq] at h
      simp only [setCount, update_of_ne (Ne.symm hq)]
      omega

/-! ### `shrink_page_list` -/

/-- The page stays with the thread. -/
def stays : Label → Bool
  | .freeIt | .gone => false
  | _ => true

theorem scanPage_stays {sc : ScanControl} {t : PageTry} {n : Counters} {label : Label}
    (h : (scanPage sc t n).exit = some label) : stays label = true := by
  rw [scanPage_exit] at h
  revert h
  cases t.trylock <;> cases t.evictable <;> cases (!sc.mayUnmap && t.mapped) <;>
    cases t.writeback <;> cases t.waits sc <;> rintro ⟨⟩ <;> rfl

theorem unmapPage_stays {sc : ScanControl} {t : PageTry} {n : Counters} {label : Label}
    (h : (unmapPage sc t n).exit = some label) : stays label = true := by
  unfold unmapPage at h
  revert h
  cases t.referencesOf sc with
  | activate | keep => rintro ⟨⟩; rfl
  | reclaim | reclaimClean =>
      dsimp only
      cases t.toSwap <;> cases sc.gfpIo <;> cases t.addToSwap <;>
        cases (t.mappedStill && t.mappingNow) <;> cases t.unmap <;> rintro ⟨⟩ <;> rfl

theorem mayPageout_stays {sc : ScanControl} {t : PageTry} {n : Counters} {label : Label}
    (h : (mayPageout sc t n).exit = some label) : stays label = true := by
  unfold mayPageout at h
  revert h
  cases t.fileCache && (!sc.kswapd || !t.zoneDirty) <;> cases t.referencesOf sc <;>
    cases t.mayEnterFs sc <;> cases sc.mayWritepage <;> rintro ⟨⟩ <;> rfl

theorem beforePageout_stays {sc : ScanControl} {t : PageTry} {n : Counters} {label : Label}
    (h : (beforePageout sc t n).exit = some label) : stays label = true := by
  rcases (Turn.exit_bind_some _ _ _).mp h with h | ⟨n₁, -, h⟩
  · exact scanPage_stays h
  rcases (Turn.exit_bind_some _ _ _).mp h with h | ⟨n₂, -, h⟩
  · exact unmapPage_stays h
  · split at h
    · exact mayPageout_stays h
    · cases h

theorem freePage_leaves {t : PageTry} {mapping : Bool} {n : Counters} :
    ((freePage t mapping n).1 = .freeIt → t.removeMapping = true ∨ t.putTestzero = true) ∧
      ((freePage t mapping n).1 = .gone → t.putTestzero = false) := by
  unfold freePage
  cases t.hasPrivate && !t.release <;> cases t.hasPrivate && !mapping && t.lastRef <;>
    cases t.putTestzero <;> cases mapping <;> cases t.removeMapping <;> simp

/-- A page leaves a turn because `__remove_mapping` or `put_page_testzero`
says so. -/
theorem shrinkPage_leaves (sc : ScanControl) (v : Reclaim) (t : PageTry) (n : Counters) :
    ((shrinkPage sc v t n).2.1 = .freeIt → t.removeMapping = true ∨ t.putTestzero = true) ∧
      ((shrinkPage sc v t n).2.1 = .gone → t.putTestzero = false) := by
  unfold shrinkPage
  cases hbefore : beforePageout sc t n with
  | error exit =>
      have hstays : stays exit.1 = true := beforePageout_stays (by rw [hbefore]; rfl)
      exact ⟨fun h => by simp_all [stays], fun h => by simp_all [stays]⟩
  | ok n' =>
      dsimp only
      unfold fromPageout
      split
      · split
        · exact freePage_leaves
        · rename_i exit hexit
          have hlabel : (afterPageout t n').exit = some exit.1 := by rw [hexit]; rfl
          revert hlabel
          unfold afterPageout
          cases t.pageout <;> cases t.stillOut <;> cases t.relock <;> cases t.dirtyAgain <;>
            simp only [Turn.exit, if_true, if_false, Bool.false_eq_true, Bool.not_true,
              Bool.not_false, reduceCtorEq, Option.some.injEq, false_implies] <;>
            intro h <;> simp [← h]
      · exact freePage_leaves

/-- What a turn of `shrink_page_list` makes of a page of the thread. -/
theorem Sound.settle {label : Label} {t : PageTry}
    (h : z.Sound pool q (own + if page = q then 1 else 0) (refs + if page = q then 1 else 0) dead)
    (hheld : own ≤ refs) (hanswers : z.Answers page t)
    (hfree : label = .freeIt → t.removeMapping = true ∨ t.putTestzero = true)
    (hgone : label = .gone → t.putTestzero = false) :
    (z.settle page label).Sound pool q
      (own + if page = q then (stays label).toNat else 0)
      (refs + if page = q then (stays label).toNat else 0)
      (dead + if page = q ∧ label = .freeIt then 1 else 0) := by
  obtain ⟨hremove, hzero⟩ := hanswers
  cases label with
  | keep | keepLocked | cullMlocked | again =>
      simp only [stays, Bool.toNat_true, reduceCtorEq, and_false, if_false, Nat.add_zero]
      exact h.frame ⟨rfl, rfl, rfl, rfl, rfl⟩ rfl rfl
  | activateLocked =>
      have hflags : ((z.settle page .activateLocked).flags q).lru = (z.flags q).lru := by
        by_cases hq : q = page
        · subst hq
          simp only [Zone.settle, setFlags, bugOn, update_self, PageFlags.setActive_lru]
        · simp only [Zone.settle, setFlags, bugOn, update_of_ne hq]
      simp only [stays, Bool.toNat_true, reduceCtorEq, and_false, if_false, Nat.add_zero]
      exact h.frame ⟨rfl, rfl, rfl, rfl, rfl⟩ hflags rfl
  | freeIt =>
      rw [sound_iff] at h ⊢
      by_cases hq : page = q
      · subst hq
        have hcount := (hfree rfl).imp hremove hzero.mp
        have hcached := Bool.toNat_le (z.cached page)
        simp only [Zone.settle, setCount, stays, if_true, and_self, update_self, Bool.toNat_false,
          implies_true, true_and] at h ⊢
        rcases hcount with ⟨hcached, hcount⟩ | hcount
        · rw [hcached, Bool.toNat_true] at h
          omega
        · omega
      · simp only [Zone.settle, setCount, Nat.add_zero, hq, false_and, if_false,
          update_of_ne (Ne.symm hq)] at h ⊢
        omega
  | gone =>
      rw [sound_iff] at h ⊢
      by_cases hq : page = q
      · subst hq
        have hmore : z.count page ≠ 1 := fun hone => by simp [hgone rfl] at hzero; exact hzero hone
        simp only [Zone.settle, setCount, stays, if_true, reduceCtorEq, and_false, if_false,
          update_self, Bool.toNat_false] at h ⊢
        omega
      · simp only [Zone.settle, setCount, Nat.add_zero, hq, false_and, if_false,
          update_of_ne (Ne.symm hq)] at h ⊢
        omega

end Page

/-! ## The lists -/

section Lists
variable {R : Type}

/-- A page is on the list its flags name when it has `PageLRU`, once, and
on no list otherwise. -/
def Listed (z : Zone R) : Prop := ∀ lru q, (z.lists lru).count q
  = if (z.flags q).lru = true ∧ (z.flags q).pageLru = lru then 1 else 0

/-- The pages on a list. -/
def lruPages (z : Zone R) (lru : LruList) : Nat :=
  ((z.lists lru).map fun q => (z.flags q).hpageNrPages).sum

variable {z w : Zone R} {page : PageId} {lru : LruList} {f : PageFlags}

theorem Listed.mem_iff (h : z.Listed) {q : PageId} :
    q ∈ z.lists lru ↔ (z.flags q).lru = true ∧ (z.flags q).pageLru = lru := by
  rw [← List.count_pos_iff, h]
  split <;> simp_all

theorem Listed.flags (h : z.Listed) (hlru : (z.flags page).lru = false) (hf : f.lru = false)
    (hlists : w.lists = z.lists) (hflags : w.flags = update z.flags page f) : w.Listed := by
  intro l q
  rw [hlists, h, hflags]
  by_cases hq : q = page
  · subst hq
    simp [hlru, hf]
  · rw [update_of_ne hq]

theorem Listed.add (h : z.Listed) (hlru : (z.flags page).lru = false) (hf : f.lru = true)
    (hlists : w.lists = update z.lists f.pageLru (z.lists f.pageLru ++ [page]))
    (hflags : w.flags = update z.flags page f) : w.Listed := by
  intro l q
  have hbase := h l q
  rw [hflags, hlists]
  by_cases hl : l = f.pageLru
  · subst hl
    rw [update_self, List.count_append, hbase]
    by_cases hq : q = page
    · subst hq
      simp [hlru, hf]
    · rw [update_of_ne hq, List.count_cons_of_ne (Ne.symm hq), List.count_nil, Nat.add_zero]
  · rw [update_of_ne hl, hbase]
    by_cases hq : q = page
    · subst hq
      simp [hlru, hf, Ne.symm hl]
    · rw [update_of_ne hq]

theorem Listed.del (h : z.Listed) (hlru : (z.flags page).lru = true) (hf : f.lru = false)
    (hlists : w.lists = update z.lists (z.flags page).pageLru
      ((z.lists (z.flags page).pageLru).erase page))
    (hflags : w.flags = update z.flags page f) : w.Listed := by
  intro l q
  have hbase := h l q
  rw [hflags, hlists]
  by_cases hl : l = (z.flags page).pageLru
  · subst hl
    rw [update_self, List.count_erase, hbase]
    by_cases hq : q = page
    · subst hq
      simp [hlru, hf]
    · rw [update_of_ne hq, beq_false_of_ne (Ne.symm hq), if_neg Bool.false_ne_true, Nat.sub_zero]
  · rw [update_of_ne hl, hbase]
    by_cases hq : q = page
    · subst hq
      simp [hf, Ne.symm hl]
    · rw [update_of_ne hq]

theorem hpageNrPages_update {flags : PageId → PageFlags} (hhuge : f.huge = (flags page).huge)
    (q : PageId) : (update flags page f q).hpageNrPages = (flags q).hpageNrPages := by
  by_cases hq : q = page
  · subst hq
    rw [update_self, PageFlags.hpageNrPages, hhuge, PageFlags.hpageNrPages]
  · rw [update_of_ne hq]

theorem lruPages_flags (hhuge : f.huge = (z.flags page).huge) (hlists : w.lists = z.lists)
    (hflags : w.flags = update z.flags page f) : w.lruPages lru = z.lruPages lru := by
  simp only [lruPages, hlists, hflags, hpageNrPages_update hhuge]

theorem lruPages_add {l : LruList} (hhuge : f.huge = (z.flags page).huge)
    (hlists : w.lists = update z.lists l (z.lists l ++ [page]))
    (hflags : w.flags = update z.flags page f) :
    w.lruPages lru = z.lruPages lru + if l = lru then (z.flags page).hpageNrPages else 0 := by
  simp only [lruPages, hlists, hflags, hpageNrPages_update hhuge]
  by_cases hl : l = lru
  · subst hl
    rw [update_self, if_pos rfl, List.map_append, List.sum_append, List.map_singleton,
      List.sum_singleton]
  · rw [update_of_ne (Ne.symm hl), if_neg hl, Nat.add_zero]

theorem lruPages_del {l : LruList} (hmem : page ∈ z.lists l) (hhuge : f.huge = (z.flags page).huge)
    (hlists : w.lists = update z.lists l ((z.lists l).erase page))
    (hflags : w.flags = update z.flags page f) :
    w.lruPages lru + (if l = lru then (z.flags page).hpageNrPages else 0) = z.lruPages lru := by
  simp only [lruPages, hlists, hflags, hpageNrPages_update hhuge]
  by_cases hl : l = lru
  · subst hl
    rw [update_self, if_pos rfl, Nat.add_comm]
    exact List.sum_map_erase (fun q => (z.flags q).hpageNrPages) hmem
  · rw [update_of_ne (Ne.symm hl), if_neg hl, Nat.add_zero]

/-- The list and its counter lose the page together. -/
theorem balance_del {l : LruList} (hmem : page ∈ z.lists l) (hhuge : f.huge = (z.flags page).huge)
    (hlists : w.lists = update z.lists l ((z.lists l).erase page))
    (hflags : w.flags = update z.flags page f)
    (hnr : w.nrLru lru
      = z.nrLru lru - if l = lru then ((z.flags page).hpageNrPages : Int) else 0) :
    w.nrLru lru - w.lruPages lru = z.nrLru lru - z.lruPages lru := by
  have hpages : w.lruPages lru + _ = _ := lruPages_del hmem hhuge hlists hflags
  split at hpages <;> split at hnr <;> first | omega | contradiction

/-- And get it together. -/
theorem balance_add {l : LruList} (hhuge : f.huge = (z.flags page).huge)
    (hlists : w.lists = update z.lists l (z.lists l ++ [page]))
    (hflags : w.flags = update z.flags page f)
    (hnr : w.nrLru lru
      = z.nrLru lru + if l = lru then ((z.flags page).hpageNrPages : Int) else 0) :
    w.nrLru lru - w.lruPages lru = z.nrLru lru - z.lruPages lru := by
  have hpages : w.lruPages lru = _ := lruPages_add hhuge hlists hflags
  split at hpages <;> split at hnr <;> first | omega | contradiction

end Lists

/-! ## The invariant -/

end Zone

/-- The flags of the pages name the list. -/
def Carries (flags : PageId → PageFlags) (lru : LruList) (pages : List PageId) : Prop :=
  ∀ q ∈ pages, (flags q).pageLru = lru

theorem Carries.nil {flags : PageId → PageFlags} {lru : LruList} : Carries flags lru [] :=
  fun _ hq => absurd hq List.not_mem_nil

theorem Carries.append {flags : PageId → PageFlags} {lru : LruList} {pages pages' : List PageId}
    (h : Carries flags lru pages) (h' : Carries flags lru pages') :
    Carries flags lru (pages ++ pages') := fun q hq => (List.mem_append.mp hq).elim (h q) (h' q)

theorem Carries.tail {flags : PageId → PageFlags} {lru : LruList} {page : PageId}
    {pages : List PageId} (h : Carries flags lru (page :: pages)) : Carries flags lru pages :=
  fun q hq => h q (List.mem_cons_of_mem page hq)

theorem Carries.update {flags : PageId → PageFlags} {lru : LruList} {page : PageId}
    {pages : List PageId} {f : PageFlags} (h : Carries flags lru pages)
    (hf : page ∈ pages → f.pageLru = lru) : Carries (update flags page f) lru pages := by
  intro q hq
  by_cases hpage : q = page
  · subst hpage
    rw [update_self]
    exact hf hq
  · rw [update_of_ne hpage]
    exact h q hq

theorem Carries.congr {flags flags' : PageId → PageFlags} {lru : LruList} {pages : List PageId}
    (h : Carries flags lru pages) (hflags : ∀ q ∈ pages, flags' q = flags q) :
    Carries flags' lru pages := fun q hq => hflags q hq ▸ h q hq

/-- The pages of the thread have the flags of the list they go to, and the
two calls of `move_active_pages_to_lru` come to all of them. -/
def Job.Flagged (flags : PageId → PageFlags) : Job → Prop
  | .isolating i => Carries flags (.evictable i.file i.active) i.dst ∧
      (i.dst.map fun q => (flags q).hpageNrPages).sum = i.nrTaken
  | .shrinking file _ _ run => Carries flags (.evictable file false) run.pageList
  | .sorting file _ _ hold act inact =>
      Carries flags (.evictable file true) (hold ++ act) ∧
        Carries flags (.evictable file false) inact
  | .moving file _ active _ list next _ =>
      Carries flags (.evictable file active) list ∧ Carries flags (.evictable file false) next ∧
        (active = false → next = [])
  | _ => True

theorem Job.Flagged.congr {flags flags' : PageId → PageFlags} {job : Job} (h : job.Flagged flags)
    (hflags : ∀ q ∈ job.own, flags' q = flags q) : job.Flagged flags' := by
  cases job with
  | isolating i =>
      refine ⟨h.1.congr hflags, ?_⟩
      rw [← h.2]
      exact congrArg List.sum (List.map_congr_left fun q hq => by rw [hflags q hq])
  | shrinking file nrTaken sc run =>
      exact Carries.congr h fun q hq => hflags q (List.mem_append_left _ hq)
  | sorting file nrTaken nrRotated hold act inact =>
      exact ⟨h.1.congr fun q hq => hflags q (List.mem_append_left _ hq),
        h.2.congr fun q hq => hflags q (List.mem_append_right _ hq)⟩
  | moving file nrTaken active pgmoved list next toFree =>
      exact ⟨h.1.congr fun q hq => hflags q (List.mem_append_left _ hq),
        h.2.1.congr fun q hq => hflags q (List.mem_append_right _ hq), h.2.2⟩
  | idle | holding | puttingBack | releasing => trivial

theorem Reclaimer.own_le_refs (t : Reclaimer) (q : PageId) : t.own.count q ≤ t.refs.count q := by
  obtain ⟨job, _ | ⟨page, pc⟩⟩ := t
  · exact Nat.le_refl _
  · cases pc with
    | redo => exact Nat.le_refl _
    | recheck | drop => exact List.count_le_count_cons

theorem Reclaimer.job_own_le (t : Reclaimer) (q : PageId) : t.job.own.count q ≤ t.own.count q := by
  obtain ⟨job, _ | ⟨page, pc⟩⟩ := t
  · exact Nat.le_refl _
  · cases pc with
    | redo => exact List.count_le_count_cons
    | recheck | drop => exact Nat.le_refl _

namespace Zone
variable {R : Type} [Fintype R]

/-- The page is sound with what the threads have. -/
def PageOk (pool : List PageId) (z : Zone R) (q : PageId) : Prop :=
  z.Sound pool q (z.own q) (z.refs q) (z.dead q)

/-- The invariant of the machine. -/
structure Inv (pool : List PageId) (z : Zone R) : Prop where
  page : ∀ q, z.PageOk pool q
  listed : z.Listed
  flagged : ∀ r, (z.threads r).job.Flagged z.flags
  /-- `NR_LRU_BASE + lru` counts the pages of the list, and those a thread
  has moved without counting them yet. -/
  nrLru : ∀ lru, z.nrLru lru = z.lruPages lru + tally (fun t => t.job.uncounted lru) z.threads
  nrIsolated : ∀ file, z.nrIsolated file = tally (fun t => t.job.isolated file) z.threads
  bug : z.bug = false

variable {z w z' : Zone R} {pool : List PageId} {r : R}

/-- A page on a list is with no thread. -/
theorem PageOk.not_own {q : PageId} (h : z.PageOk pool q)
    (hq : (z.flags q).lru = true ∨ q ∈ z.pagevec ∨ q ∈ z.free) (r : R) :
    q ∉ (z.threads r).job.own := by
  intro hmem
  have hown := List.count_pos_iff.mpr hmem
  have hthread := (z.threads r).job_own_le q
  have htally := le_tally (fun t : Reclaimer => t.own.count q) z.threads r
  have hplace := h.place
  unfold Zone.own at hplace
  rcases hq with hlru | hq | hq
  · rw [hlru, Bool.toNat_true] at hplace
    omega
  · have := List.count_pos_iff.mpr hq
    omega
  · have := List.count_pos_iff.mpr hq
    omega

/-- A thread has a page once. -/
theorem PageOk.own_le_one {q : PageId} (h : z.PageOk pool q) (r : R) :
    (z.threads r).own.count q ≤ 1 := by
  have htally := le_tally (fun t : Reclaimer => t.own.count q) z.threads r
  have hplace := h.place
  unfold Zone.own at hplace
  omega

/-- A page of a thread has `PageLRU` clear. -/
theorem PageOk.lru_of_own {q : PageId} (h : z.PageOk pool q) (hq : q ∈ (z.threads r).own) :
    (z.flags q).lru = false := by
  have hmine := List.count_pos_iff.mpr hq
  have htally := le_tally (fun t : Reclaimer => t.own.count q) z.threads r
  have hplace := h.place
  unfold Zone.own at hplace
  cases hlru : (z.flags q).lru with
  | false => rfl
  | true =>
      rw [hlru, Bool.toNat_true] at hplace
      omega

variable [DecidableEq R]

/-- A page of one thread is with no other. -/
theorem PageOk.not_other {q : PageId} (h : z.PageOk pool q) (hq : q ∈ (z.threads r).own) {r' : R}
    (hne : r' ≠ r) : q ∉ (z.threads r').job.own := by
  intro hmem
  have hown := List.count_pos_iff.mpr hmem
  have hmine := List.count_pos_iff.mpr hq
  have hthread := (z.threads r').job_own_le q
  have htally := add_le_tally (fun t : Reclaimer => t.own.count q) z.threads hne
  have hplace := h.place
  unfold Zone.own at hplace
  omega

theorem PageOk.step {t t' : Reclaimer} {q : PageId} (hq : z.PageOk pool q) (hr : z.threads r = t)
    (hw : w.threads = z.threads)
    (h : ∀ own refs dead, own ≤ refs → z.Sound pool q (own + t.own.count q) (refs + t.refs.count q)
        (dead + t.job.dead.count q) →
      w.Sound pool q (own + t'.own.count q) (refs + t'.refs.count q) (dead + t'.job.dead.count q)) :
    (w.setThread r t').PageOk pool q := by
  obtain ⟨own, hown, hown'⟩ := tally_split (fun t : Reclaimer => t.own.count q) z.threads r
  obtain ⟨refs, hrefs, hrefs'⟩ := tally_split (fun t : Reclaimer => t.refs.count q) z.threads r
  obtain ⟨dead, hdead, hdead'⟩ := tally_split (fun t : Reclaimer => t.job.dead.count q) z.threads r
  have hheld : own ≤ refs := by
    -- the threads but for `r`, which is put to rest
    have hle := tally_le_tally (fun t : Reclaimer => t.own_le_refs q) (update z.threads r {})
    rw [hown', hrefs'] at hle
    exact hle
  rw [PageOk, Zone.own, Zone.refs, Zone.dead, hown, hrefs, hdead, hr] at hq
  have hsound := h own refs dead hheld hq
  rw [PageOk, Zone.own, Zone.refs, Zone.dead, setThread, hw, hown', hrefs', hdead']
  exact ⟨hsound.place, hsound.leaving, hsound.unused, hsound.held, hsound.counted, hsound.kept⟩

/-- The rule for a step of a thread: `w` is the zone but for the thread. -/
theorem Inv.setThread {t t' : Reclaimer} (h : z.Inv pool) (hr : z.threads r = t)
    (hw : w.threads = z.threads)
    (hpage : ∀ q own refs dead, own ≤ refs →
      z.Sound pool q (own + t.own.count q) (refs + t.refs.count q) (dead + t.job.dead.count q) →
      w.Sound pool q (own + t'.own.count q) (refs + t'.refs.count q) (dead + t'.job.dead.count q))
    (hlisted : w.Listed)
    (hother : ∀ r' ≠ r, ∀ q ∈ (z.threads r').job.own, w.flags q = z.flags q)
    (hmine : t'.job.Flagged w.flags)
    (hnrLru : ∀ lru, w.nrLru lru - w.lruPages lru - t'.job.uncounted lru
      = z.nrLru lru - z.lruPages lru - t.job.uncounted lru)
    (hnrIsolated : ∀ file, w.nrIsolated file - t'.job.isolated file
      = z.nrIsolated file - t.job.isolated file)
    (hbug : w.bug = false) : (w.setThread r t').Inv pool where
  page := fun q => (h.page q).step hr hw (hpage q)
  listed := hlisted
  flagged := by
    intro r'
    by_cases hr' : r' = r
    · subst hr'
      simpa only [Zone.setThread, update_self] using hmine
    · simpa only [Zone.setThread, update_of_ne hr', hw] using
        (h.flagged r').congr (hother r' hr')
  nrLru := by
    intro lru
    have hsum := tally_update (fun t : Reclaimer => t.job.uncounted lru) z.threads r t'
    have hbase := h.nrLru lru
    have hdiff := hnrLru lru
    have hpages : (w.setThread r t').lruPages lru = w.lruPages lru := rfl
    have hnr : (w.setThread r t').nrLru lru = w.nrLru lru := rfl
    have hthreads : (w.setThread r t').threads = update z.threads r t' := by
      rw [Zone.setThread, hw]
    rw [hpages, hnr, hthreads]
    rw [hr] at hsum
    omega
  nrIsolated := by
    intro file
    have hsum := tally_update (fun t : Reclaimer => t.job.isolated file) z.threads r t'
    have hbase := h.nrIsolated file
    have hdiff := hnrIsolated file
    have hnr : (w.setThread r t').nrIsolated file = w.nrIsolated file := rfl
    have hthreads : (w.setThread r t').threads = update z.threads r t' := by
      rw [Zone.setThread, hw]
    rw [hnr, hthreads]
    rw [hr] at hsum
    omega
  bug := hbug

omit [Fintype R] [DecidableEq R] in
theorem flags_other {page : PageId} {f : PageFlags} (hflags : w.flags = update z.flags page f)
    (hother : ∀ r' ≠ r, page ∉ (z.threads r').job.own) :
    ∀ r' ≠ r, ∀ q ∈ (z.threads r').job.own, w.flags q = z.flags q := by
  intro r' hne q hq
  have hq' : q ≠ page := by
    rintro rfl
    exact hother r' hne hq
  rw [hflags, update_of_ne hq']

section Rules
variable {t t' : Reclaimer} {page : PageId} {f : PageFlags}

/-- The rule for a step that takes a page off its list. -/
theorem Inv.setThread_del (h : z.Inv pool) (hr : z.threads r = t) (hw : w.threads = z.threads)
    (hlru : (z.flags page).lru = true) (hf : f.lru = false) (hhuge : f.huge = (z.flags page).huge)
    (hflags : w.flags = update z.flags page f)
    (hlists : w.lists = update z.lists (z.flags page).pageLru
      ((z.lists (z.flags page).pageLru).erase page))
    (hpage : ∀ q own refs dead, own ≤ refs →
      z.Sound pool q (own + t.own.count q) (refs + t.refs.count q) (dead + t.job.dead.count q) →
      w.Sound pool q (own + t'.own.count q) (refs + t'.refs.count q) (dead + t'.job.dead.count q))
    (hmine : t'.job.Flagged (update z.flags page f))
    (hnrLru : ∀ lru, w.nrLru lru - t'.job.uncounted lru = z.nrLru lru - t.job.uncounted lru
      - if (z.flags page).pageLru = lru then ((z.flags page).hpageNrPages : Int) else 0)
    (hnrIsolated : ∀ file, w.nrIsolated file - t'.job.isolated file
      = z.nrIsolated file - t.job.isolated file)
    (hbug : w.bug = false) : (w.setThread r t').Inv pool := by
  have hmem : page ∈ z.lists (z.flags page).pageLru := h.listed.mem_iff.mpr ⟨hlru, rfl⟩
  refine h.setThread hr hw hpage (h.listed.del hlru hf hlists hflags)
    (flags_other hflags fun r' _ => (h.page page).not_own (.inl hlru) r') (hflags ▸ hmine) ?_
    hnrIsolated hbug
  intro lru
  have hpages : w.lruPages lru + _ = _ := lruPages_del hmem hhuge hlists hflags
  have hbase := hnrLru lru
  split at hpages <;> split at hbase <;> first | omega | contradiction

/-- The rule for a step that puts a page of the thread on a list. -/
theorem Inv.setThread_add (page : PageId) (h : z.Inv pool) (hr : z.threads r = t)
    (hw : w.threads = z.threads) (hown : page ∈ t.own) (hf : f.lru = true)
    (hhuge : f.huge = (z.flags page).huge) (hflags : w.flags = update z.flags page f)
    (hlists : w.lists = update z.lists f.pageLru (z.lists f.pageLru ++ [page]))
    (hpage : ∀ q own refs dead, own ≤ refs →
      z.Sound pool q (own + t.own.count q) (refs + t.refs.count q) (dead + t.job.dead.count q) →
      w.Sound pool q (own + t'.own.count q) (refs + t'.refs.count q) (dead + t'.job.dead.count q))
    (hmine : t'.job.Flagged (update z.flags page f))
    (hnrLru : ∀ lru, w.nrLru lru - t'.job.uncounted lru = z.nrLru lru - t.job.uncounted lru
      + if f.pageLru = lru then ((z.flags page).hpageNrPages : Int) else 0)
    (hnrIsolated : ∀ file, w.nrIsolated file - t'.job.isolated file
      = z.nrIsolated file - t.job.isolated file)
    (hbug : w.bug = false) : (w.setThread r t').Inv pool := by
  rw [← hr] at hown
  refine h.setThread hr hw hpage
    (h.listed.add ((h.page page).lru_of_own hown) hf hlists hflags)
    (flags_other hflags fun r' hne => (h.page page).not_other hown hne) (hflags ▸ hmine) ?_
    hnrIsolated hbug
  intro lru
  have hpages : w.lruPages lru = _ := lruPages_add hhuge hlists hflags
  have hbase := hnrLru lru
  split at hpages <;> split at hbase <;> first | omega | contradiction

/-- The rule for a step that leaves the lists alone, but for the flags of a
page of the thread. -/
theorem Inv.setThread_keep (page : PageId) (h : z.Inv pool) (hr : z.threads r = t)
    (hw : w.threads = z.threads) (hown : page ∈ t.own) (hf : f.lru = false)
    (hhuge : f.huge = (z.flags page).huge) (hflags : w.flags = update z.flags page f)
    (hlists : w.lists = z.lists)
    (hpage : ∀ q own refs dead, own ≤ refs →
      z.Sound pool q (own + t.own.count q) (refs + t.refs.count q) (dead + t.job.dead.count q) →
      w.Sound pool q (own + t'.own.count q) (refs + t'.refs.count q) (dead + t'.job.dead.count q))
    (hmine : t'.job.Flagged (update z.flags page f))
    (hnrLru : ∀ lru, w.nrLru lru - t'.job.uncounted lru = z.nrLru lru - t.job.uncounted lru)
    (hnrIsolated : ∀ file, w.nrIsolated file - t'.job.isolated file
      = z.nrIsolated file - t.job.isolated file)
    (hbug : w.bug = false) : (w.setThread r t').Inv pool := by
  rw [← hr] at hown
  refine h.setThread hr hw hpage
    (h.listed.flags ((h.page page).lru_of_own hown) hf hlists hflags)
    (flags_other hflags fun r' hne => (h.page page).not_other hown hne) (hflags ▸ hmine) ?_
    hnrIsolated hbug
  intro lru
  have hpages : w.lruPages lru = _ := lruPages_flags hhuge hlists hflags
  have hbase := hnrLru lru
  omega

/-- The rule for a step that changes neither lists nor flags. -/
theorem Inv.setThread_same (h : z.Inv pool) (hr : z.threads r = t) (hw : w.threads = z.threads)
    (hflags : w.flags = z.flags) (hlists : w.lists = z.lists)
    (hpage : ∀ q own refs dead, own ≤ refs →
      z.Sound pool q (own + t.own.count q) (refs + t.refs.count q) (dead + t.job.dead.count q) →
      w.Sound pool q (own + t'.own.count q) (refs + t'.refs.count q) (dead + t'.job.dead.count q))
    (hmine : t'.job.Flagged z.flags)
    (hnrLru : ∀ lru, w.nrLru lru - t'.job.uncounted lru = z.nrLru lru - t.job.uncounted lru)
    (hnrIsolated : ∀ file, w.nrIsolated file - t'.job.isolated file
      = z.nrIsolated file - t.job.isolated file)
    (hbug : w.bug = false) : (w.setThread r t').Inv pool := by
  have hlisted : w.Listed := by
    intro lru q
    rw [hlists, hflags]
    exact h.listed lru q
  have hpages : ∀ lru, w.lruPages lru = z.lruPages lru := by
    intro lru
    rw [lruPages, hlists, hflags, lruPages]
  refine h.setThread hr hw hpage hlisted (fun _ _ q _ => by rw [hflags]) (hflags ▸ hmine) ?_
    hnrIsolated hbug
  intro lru
  have hbase := hnrLru lru
  rw [hpages]
  omega

end Rules

end Zone
end MegaVM
