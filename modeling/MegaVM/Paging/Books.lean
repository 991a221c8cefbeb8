import MegaVM.Paging.Ranges
import MegaVM.Lib.Tally
import Mathlib.Algebra.BigOperators.Pi
import Mathlib.Algebra.BigOperators.Ring.Finset
import Mathlib.Data.Fintype.Prod
import Mathlib.Tactic.Abel

/-!
# Who a counter counts

`_count`, `_mapcount`, the swap map and the RSS counters are the books of
what the entries, the threads, the swap cache and the others have. `debt`
is the difference; every small change has a lemma that says what it does to
the debt, and a function is right when these cancel.
-/

set_option linter.unusedSectionVars false

namespace MegaVM

namespace Vm

open Function Tally

/-- What there is a counter for. -/
inductive Resource (M : Type)
  | page (p : PageId)
  | map (p : PageId)
  | swap (e : SwpEntry)
  | rss (m : M) (kind : RssKind)
  deriving DecidableEq

variable {M T : Type} {lim : Nat} [DecidableEq M] [DecidableEq T]

/-- One of the resource. -/
def one (r : Resource M) : Resource M → Int := Pi.single r 1

/-- The counters. -/
def books (s : Vm M T lim) : Resource M → Int
  | .page p => s.count p
  | .map p => s.mapcount p
  | .swap e => s.swapCount e
  | .rss m kind => s.rss m kind

/-- The counter for a page of the address space. -/
def pageKind (anon : PageId → Bool) (p : PageId) : RssKind := if anon p then .anon else .file

/-- What an entry counts for. -/
def pteClaims (anon : PageId → Bool) (i : Place M lim) : Pte → Resource M → Int
  | .present p .page _ => one (.page p) + one (.map p) + one (.rss i.1 (pageKind anon p))
  | .swap e => one (.swap e) + one (.rss i.1 .swapents)
  | .migration p _ => one (.rss i.1 (pageKind anon p))
  | _ => 0

/-- References to the pages. -/
def pageClaims : List PageId → Resource M → Int
  | [] => 0
  | p :: pages => one (.page p) + pageClaims pages

/-- A vector of RSS counters of the address space. -/
def rssClaims (m : M) (rss : RssKind → Int) : Resource M → Int
  | .rss m' kind => if m' = m then rss kind else 0
  | _ => 0

/-- What the function of a thread has not added to the counters yet. -/
def pendingClaims : Job M lim → Resource M → Int
  | .copying run => rssClaims run.dst run.rss
  | .zapping g (some run) => rssClaims g.mm run.rss
  | _ => 0

/-- What the function counts for: its references, less what is still to be
added. -/
def jobClaims (job : Job M lim) : Resource M → Int := pageClaims job.refs - pendingClaims job

def taskClaims (task : Task M lim) : Resource M → Int :=
  jobClaims task.job - rssClaims task.mm task.rssStat

/-- What the swap cache and the others have. -/
def restClaims (s : Vm M T lim) : Resource M → Int
  | .page p => (s.swapOf p).isSome.toNat + s.others p
  | _ => 0

variable [Fintype M] [Fintype T]

/-- What the counters have too much. -/
def debt (s : Vm M T lim) : Resource M → Int :=
  s.books - (∑ i, pteClaims s.anon i (s.pte i)) - (∑ t, taskClaims (s.tasks t)) - s.restClaims

/-! ## The small changes -/

section
variable (s : Vm M T lim) (t : T) (i : Place M lim) (p : PageId) (e : SwpEntry) (m : M)
  (kind : RssKind) (k : Int)

theorem update_add {α : Type} [DecidableEq α] (f : α → Int) (a b : α) (k : Int) :
    update f a (f a + k) b = f b + k * if b = a then 1 else 0 := by
  by_cases hb : b = a
  · subst hb
    simp
  · simp [hb]

theorem books_addCount : (s.addCount p k).books = s.books + k • one (.page p) := by
  funext r
  cases r <;> simp [-zsmul_eq_mul, books, addCount, one, update_add, Pi.single_apply]

theorem books_addMapcount : (s.addMapcount p k).books = s.books + k • one (.map p) := by
  funext r
  cases r <;> simp [-zsmul_eq_mul, books, addMapcount, one, update_add, Pi.single_apply]

theorem books_addSwapCount : (s.addSwapCount e k).books = s.books + k • one (.swap e) := by
  funext r
  cases r <;> simp [-zsmul_eq_mul, books, addSwapCount, one, update_add, Pi.single_apply]

variable {s} in
theorem debt_of {s' : Vm M T lim} {x : Resource M → Int} (hbooks : s'.books = s.books + x)
    (hpte : s'.pte = s.pte) (hanon : s'.anon = s.anon) (htasks : s'.tasks = s.tasks)
    (hrest : s'.restClaims = s.restClaims) : s'.debt = s.debt + x := by
  rw [debt, debt, hbooks, hpte, hanon, htasks, hrest]
  abel

theorem debt_addCount : (s.addCount p k).debt = s.debt + k • one (.page p) :=
  debt_of (s.books_addCount p k) rfl rfl rfl rfl

theorem debt_getPage : (s.getPage p).debt = s.debt + one (.page p) := by
  rw [getPage, debt_addCount]
  abel

theorem debt_putPage : (s.putPage p).debt = s.debt - one (.page p) := by
  rw [putPage, debt_addCount]
  abel

theorem debt_addMapcount : (s.addMapcount p k).debt = s.debt + k • one (.map p) :=
  debt_of (s.books_addMapcount p k) rfl rfl rfl rfl

theorem debt_addSwapCount : (s.addSwapCount e k).debt = s.debt + k • one (.swap e) :=
  debt_of (s.books_addSwapCount e k) rfl rfl rfl rfl

theorem debt_setPte (x : Pte) : (s.setPte i x).debt
    = s.debt + pteClaims s.anon i (s.pte i) - pteClaims s.anon i x := by
  have hsum := sum_update (pteClaims s.anon) s.pte i x
  show s.books - (∑ j, pteClaims s.anon j (update s.pte i x j)) -
    (∑ t, taskClaims (s.tasks t)) - s.restClaims = _
  rw [hsum, debt]
  abel

theorem debt_setJob (job : Job M lim) : (s.setJob t job).debt
    = s.debt + jobClaims (s.tasks t).job - jobClaims job := by
  have hsum := sum_update (fun (_ : T) (task : Task M lim) => taskClaims task) s.tasks t
    { s.tasks t with job }
  show s.books - (∑ i, pteClaims s.anon i (s.pte i)) -
    (∑ t', taskClaims (update s.tasks t { s.tasks t with job } t')) - s.restClaims = _
  rw [hsum, debt]
  simp only [taskClaims]
  abel

theorem debt_addMmCounters (rss : RssKind → Int) : (s.addMmCounters m rss).debt
    = s.debt + rssClaims m rss := by
  refine debt_of ?_ rfl rfl rfl rfl
  funext r
  cases r with
  | rss m' kind =>
      by_cases hm : m' = m
      · subst hm
        simp [books, addMmCounters, rssClaims]
      · simp [books, addMmCounters, rssClaims, hm]
  | _ => simp [books, addMmCounters, rssClaims]

theorem rssClaims_zero : rssClaims m (fun _ => 0) = 0 := by
  funext r
  cases r <;> simp [rssClaims]

theorem rssClaims_addKind (rss : RssKind → Int) :
    rssClaims m (addKind rss kind k) = rssClaims m rss + k • one (.rss m kind) := by
  funext r
  cases r with
  | rss m' kind' =>
      by_cases hm : m' = m
      · subst hm
        simp [-zsmul_eq_mul, rssClaims, addKind, one, update_add, Pi.single_apply]
      · simp [rssClaims, one, hm]
  | _ => simp [rssClaims, one]

theorem debt_syncMmRss : (s.syncMmRss t).debt = s.debt := by
  have hbooks : (s.syncMmRss t).books
      = s.books + rssClaims (s.tasks t).mm (s.tasks t).rssStat := by
    funext r
    cases r with
    | rss m' kind =>
        by_cases hm : m' = (s.tasks t).mm
        · subst hm
          simp [books, syncMmRss, rssClaims]
        · simp [books, syncMmRss, rssClaims, hm]
    | _ => simp [books, syncMmRss, rssClaims]
  have hsum := sum_update (fun (_ : T) (task : Task M lim) => taskClaims task) s.tasks t
    { s.tasks t with rssStat := fun _ => 0 }
  show (s.syncMmRss t).books - (∑ i, pteClaims s.anon i (s.pte i)) -
    (∑ t', taskClaims (update s.tasks t { s.tasks t with rssStat := fun _ => 0 } t')) -
      s.restClaims = _
  rw [hbooks, hsum, debt]
  simp only [taskClaims, rssClaims_zero]
  abel

theorem debt_addMmRssVec (rss : RssKind → Int) : (s.addMmRssVec t m rss).debt
    = s.debt + rssClaims m rss := by
  rw [addMmRssVec, debt_addMmCounters]
  split
  · rw [debt_syncMmRss]
  · rfl

/-- The cache gives its reference back. -/
theorem debt_freeSwapCache (h : s.swapOf p = some e) : (s.freeSwapCache p e).debt = s.debt := by
  have hrest : (s.freeSwapCache p e).restClaims = s.restClaims - one (.page p) := by
    funext r
    cases r with
    | page q =>
        by_cases hq : q = p
        · subst hq
          simp [restClaims, freeSwapCache, addCount, one, h]
        · simp [restClaims, freeSwapCache, addCount, one, hq]
    | _ => simp [restClaims, one]
  show (s.addCount p (-1)).books - (∑ i, pteClaims s.anon i (s.pte i)) -
    (∑ t, taskClaims (s.tasks t)) - (s.freeSwapCache p e).restClaims = _
  rw [hrest, books_addCount, debt]
  abel

/-- What the others take or drop is theirs. -/
theorem debt_others (n : Nat) (hn : (n : Int) = s.others p + k) :
    debt { s.addCount p k with others := update s.others p n } = s.debt := by
  have hrest : restClaims { s.addCount p k with others := update s.others p n }
      = s.restClaims + k • one (.page p) := by
    funext r
    cases r with
    | page q =>
        by_cases hq : q = p
        · subst hq
          simp [-zsmul_eq_mul, restClaims, addCount, one, hn, add_assoc]
        · simp [restClaims, addCount, one, hq]
    | _ => simp [restClaims, one]
  show (s.addCount p k).books - (∑ i, pteClaims s.anon i (s.pte i)) -
    (∑ t, taskClaims (s.tasks t)) - _ = _
  rw [hrest, books_addCount, debt]
  abel

theorem pageClaims_append (pages pages' : List PageId) :
    pageClaims (pages ++ pages') = (pageClaims pages + pageClaims pages' : Resource M → Int) := by
  induction pages with
  | nil => rw [List.nil_append, pageClaims, zero_add]
  | cons q pages ih => rw [List.cons_append, pageClaims, pageClaims, ih, add_assoc]

theorem debt_freeSwapCopy (frees : PageId → Bool) : (freeSwapCopy frees s p).debt = s.debt := by
  unfold freeSwapCopy
  split
  · rename_i e _ hcopy
    exact debt_freeSwapCache s p e hcopy
  · rfl

theorem debt_freeSwapCopies (frees : PageId → Bool) (pages : List PageId) :
    (pages.foldl (freeSwapCopy frees) s).debt = s.debt := by
  induction pages generalizing s with
  | nil => rfl
  | cons q pages ih => rw [List.foldl_cons, ih, debt_freeSwapCopy]

theorem debt_putPages (pages : List PageId) :
    (pages.foldl putPage s).debt = s.debt - pageClaims pages := by
  induction pages generalizing s with
  | nil => rw [List.foldl_nil, pageClaims, sub_zero]
  | cons q pages ih =>
      rw [List.foldl_cons, ih, debt_putPage, pageClaims]
      abel

/-- The batches give their references back; what the swap cache lets go of
was its own. -/
theorem debt_freePages (frees : PageId → Bool) (pages : List PageId) :
    (s.freePages frees pages).debt = s.debt - pageClaims pages := by
  rw [freePages, debt_putPages, debt_freeSwapCopies]

end

/-! ## Balanced books -/

/-- The counter of the address space an entry is in. -/
def Pte.kind (anon : PageId → Bool) : Pte → Option RssKind
  | .present p .page _ => some (pageKind anon p)
  | .swap _ => some .swapents
  | .migration p _ => some (pageKind anon p)
  | _ => Option.none

/-- How many entries map the page, and how many have the swap entry. -/
def mapped (s : Vm M T lim) (p : PageId) : Nat :=
  ∑ i, if (s.pte i).normalPage = some p then 1 else 0

def swapped (s : Vm M T lim) (e : SwpEntry) : Nat := ∑ i, if s.pte i = .swap e then 1 else 0

/-- How many entries of the address space are of the kind. -/
def resident (s : Vm M T lim) (m : M) (kind : RssKind) : Nat :=
  ∑ i : Place M lim, if i.1 = m ∧ (s.pte i).kind s.anon = some kind then 1 else 0

/-- How many references to the page are in the batches of the threads. -/
def held (s : Vm M T lim) (p : PageId) : Nat := ∑ t, (s.tasks t).job.refs.count p

/-- What the threads have not added to the counter yet. -/
def unsynced (s : Vm M T lim) (m : M) (kind : RssKind) : Int :=
  ∑ t, (pendingClaims (s.tasks t).job (.rss m kind)
    + rssClaims (s.tasks t).mm (s.tasks t).rssStat (.rss m kind))

section
variable {s : Vm M T lim}

theorem pageClaims_page (pages : List PageId) (p : PageId) :
    pageClaims pages (.page p : Resource M) = pages.count p := by
  induction pages with
  | nil => rfl
  | cons q pages ih =>
      rw [pageClaims, Pi.add_apply, ih, List.count_cons, one, Pi.single_apply]
      by_cases hq : p = q
      · subst hq
        simp [add_comm]
      · simp [hq, Ne.symm hq]

theorem pageClaims_of_ne (pages : List PageId) {r : Resource M} (h : ∀ p, r ≠ .page p) :
    pageClaims pages r = 0 := by
  induction pages with
  | nil => rfl
  | cons q pages ih => rw [pageClaims, Pi.add_apply, ih, one, Pi.single_eq_of_ne (h q), add_zero]

theorem rssClaims_of_ne (m : M) (rss : RssKind → Int) {r : Resource M}
    (h : ∀ m kind, r ≠ .rss m kind) : rssClaims m rss r = 0 := by
  cases r with
  | rss m' kind => exact absurd rfl (h m' kind)
  | _ => rfl

theorem pendingClaims_of_ne (job : Job M lim) {r : Resource M} (h : ∀ m kind, r ≠ .rss m kind) :
    pendingClaims job r = 0 := by
  cases job with
  | copying run => exact rssClaims_of_ne _ _ h
  | zapping g run =>
      cases run with
      | none => rfl
      | some run => exact rssClaims_of_ne _ _ h
  | _ => rfl

theorem debt_apply (r : Resource M) : s.debt r
    = s.books r - (∑ i, pteClaims s.anon i (s.pte i) r) - (∑ t, taskClaims (s.tasks t) r)
      - s.restClaims r := by
  simp only [debt, Pi.sub_apply, Finset.sum_apply]

/-- An entry has one of the page where it maps it. -/
theorem pteClaims_page (anon : PageId → Bool) (i : Place M lim) (x : Pte) (p : PageId) :
    pteClaims anon i x (.page p) = if x.normalPage = some p then 1 else 0 := by
  cases x with
  | present q backing bits =>
      cases backing <;> simp [pteClaims, one, Pte.normalPage, Pi.single_apply, eq_comm]
  | _ => simp [pteClaims, one, Pte.normalPage]

theorem pteClaims_map (anon : PageId → Bool) (i : Place M lim) (x : Pte) (p : PageId) :
    pteClaims anon i x (.map p) = if x.normalPage = some p then 1 else 0 := by
  cases x with
  | present q backing bits =>
      cases backing <;> simp [pteClaims, one, Pte.normalPage, Pi.single_apply, eq_comm]
  | _ => simp [pteClaims, one, Pte.normalPage]

theorem pteClaims_swap (anon : PageId → Bool) (i : Place M lim) (x : Pte) (e : SwpEntry) :
    pteClaims anon i x (.swap e) = if x = .swap e then 1 else 0 := by
  cases x with
  | present q backing bits => cases backing <;> simp [pteClaims, one]
  | swap e' => simp [pteClaims, one, Pi.single_apply, eq_comm]
  | _ => simp [pteClaims, one]

theorem pteClaims_rss (anon : PageId → Bool) (i : Place M lim) (x : Pte) (m : M)
    (kind : RssKind) :
    pteClaims anon i x (.rss m kind) = if i.1 = m ∧ x.kind anon = some kind then 1 else 0 := by
  cases x with
  | present q backing bits =>
      cases backing <;> simp [pteClaims, one, Pte.kind, Pi.single_apply, eq_comm]
  | _ => simp [pteClaims, one, Pte.kind, Pi.single_apply, eq_comm]

theorem taskClaims_page (task : Task M lim) (p : PageId) :
    taskClaims task (.page p) = task.job.refs.count p := by
  simp only [taskClaims, jobClaims, Pi.sub_apply]
  rw [pageClaims_page, pendingClaims_of_ne _ (by simp), rssClaims_of_ne _ _ (by simp)]
  omega

theorem taskClaims_rss (task : Task M lim) (m : M) (kind : RssKind) :
    taskClaims task (.rss m kind) = -(pendingClaims task.job (.rss m kind)
      + rssClaims task.mm task.rssStat (.rss m kind)) := by
  simp only [taskClaims, jobClaims, Pi.sub_apply]
  rw [pageClaims_of_ne _ (by simp)]
  omega

theorem taskClaims_of_ne (task : Task M lim) {r : Resource M} (hpage : ∀ p, r ≠ .page p)
    (hrss : ∀ m kind, r ≠ .rss m kind) : taskClaims task r = 0 := by
  simp only [taskClaims, jobClaims, Pi.sub_apply]
  rw [pageClaims_of_ne _ hpage, pendingClaims_of_ne _ hrss, rssClaims_of_ne _ _ hrss]
  rfl

theorem debt_page (p : PageId) : s.debt (.page p)
    = s.count p - (s.mapped p + s.held p + (s.swapOf p).isSome.toNat + s.others p) := by
  simp only [debt_apply, pteClaims_page, taskClaims_page, restClaims, books, mapped, held,
    Nat.cast_sum, Nat.cast_ite, Nat.cast_one, Nat.cast_zero]
  omega

theorem debt_map (p : PageId) : s.debt (.map p) = s.mapcount p - s.mapped p := by
  have htask : ∀ t, taskClaims (s.tasks t) (.map p) = 0 :=
    fun t => taskClaims_of_ne _ (by simp) (by simp)
  simp [debt_apply, pteClaims_map, htask, restClaims, books, mapped]

theorem debt_swap (e : SwpEntry) : s.debt (.swap e) = s.swapCount e - s.swapped e := by
  have htask : ∀ t, taskClaims (s.tasks t) (.swap e) = 0 :=
    fun t => taskClaims_of_ne _ (by simp) (by simp)
  simp [debt_apply, pteClaims_swap, htask, restClaims, books, swapped]

theorem debt_rss (m : M) (kind : RssKind) : s.debt (.rss m kind)
    = s.rss m kind - (s.resident m kind - s.unsynced m kind) := by
  simp only [debt_apply, pteClaims_rss, taskClaims_rss, restClaims, books, resident, unsynced,
    Finset.sum_neg_distrib, Nat.cast_sum, Nat.cast_ite, Nat.cast_one, Nat.cast_zero]
  omega

/-- Every counter is what it counts. -/
structure Booked (s : Vm M T lim) : Prop where
  count : ∀ p, s.count p = s.mapped p + s.held p + (s.swapOf p).isSome.toNat + s.others p
  mapcount : ∀ p, s.mapcount p = s.mapped p
  swapCount : ∀ e, s.swapCount e = s.swapped e
  rss : ∀ m kind, s.rss m kind = s.resident m kind - s.unsynced m kind

theorem booked_iff : s.Booked ↔ s.debt = 0 := by
  constructor
  · intro h
    funext r
    cases r with
    | page p => rw [debt_page, h.count p, sub_self, Pi.zero_apply]
    | map p => rw [debt_map, h.mapcount p, sub_self, Pi.zero_apply]
    | swap e => rw [debt_swap, h.swapCount e, sub_self, Pi.zero_apply]
    | rss m kind => rw [debt_rss, h.rss m kind, sub_self, Pi.zero_apply]
  · intro h
    have hzero : ∀ r, s.debt r = 0 := congrFun h
    refine ⟨fun p => ?_, fun p => ?_, fun e => ?_, fun m kind => ?_⟩
    · exact sub_eq_zero.mp ((debt_page p).symm.trans (hzero _))
    · exact sub_eq_zero.mp ((debt_map p).symm.trans (hzero _))
    · exact sub_eq_zero.mp ((debt_swap e).symm.trans (hzero _))
    · exact sub_eq_zero.mp ((debt_rss m kind).symm.trans (hzero _))

/-- An entry that maps the page is counted. -/
theorem mapped_pos {i : Place M lim} {p : PageId} (h : (s.pte i).normalPage = some p) :
    1 ≤ s.mapped p := by
  have hle := Finset.single_le_sum (fun j _ => Nat.zero_le _) (Finset.mem_univ i)
    (f := fun j => if (s.pte j).normalPage = some p then 1 else 0)
  rw [mapped]
  simpa [h] using hle

theorem swapped_pos {i : Place M lim} {e : SwpEntry} (h : s.pte i = .swap e) :
    1 ≤ s.swapped e := by
  have hle := Finset.single_le_sum (fun j _ => Nat.zero_le _) (Finset.mem_univ i)
    (f := fun j => if s.pte j = .swap e then 1 else 0)
  rw [swapped]
  simpa [h] using hle

theorem held_pos {t : T} {p : PageId} (h : p ∈ (s.tasks t).job.refs) : 1 ≤ s.held p := by
  have hle := Finset.single_le_sum (fun t _ => Nat.zero_le _) (Finset.mem_univ t)
    (f := fun t => (s.tasks t).job.refs.count p)
  have hpos := List.count_pos_iff.mpr h
  rw [held]
  omega

end

end Vm

end MegaVM
