import Mathlib.Data.BitVec
import MegaVM.Lib.Exchange

/-!
# The heap copy module

`init_module` of `file_fault.c` walks the heaps of two processes side by
side and exchanges the contents of the pages that both of them have. It
runs under the two `page_table_lock`s, and so the page tables stand still.
The walk is a state with one `turn` for each turn of the `for` loop; the
loop over the bytes of a page is `swapBytes`.

A frame is a page of memory and `Contents` what all frames hold. The one
store to anything else is `vma->vm_ops = &file_ops`.
-/

namespace MegaVM.HeapCopy

abbrev Frame := Nat

/-- The byte of a frame at an offset; a frame has 4096. -/
abbrev Contents := Frame × Nat → BitVec 8

/-- What the module reads of a `pte_t`. -/
structure Pte where
  present : Bool
  frame : Frame
  deriving DecidableEq, Repr

/-- What the module asks of a `struct page`. -/
structure PageFlags where
  anon : Bool
  /-- `page_lock_anon_vma_read` finds an `anon_vma`. -/
  anonVma : Bool
  ksm : Bool
  locked : Bool
  /-- `newPage->mapping` is not NULL. -/
  mapping : Bool
  deriving DecidableEq, Repr

/-- What the module reads of a `struct mm_struct`. -/
structure Mm where
  startBrk : BitVec 64
  brk : BitVec 64
  /-- The walk through the page table from `pgd_offset` to
  `pte_offset_map`. -/
  pteOffsetMap : BitVec 64 → Option Pte

/-- What a load of the module finds. -/
structure Load where
  mm : Mm
  mm2 : Mm
  page : Frame → PageFlags
  /-- What `kmalloc` returns, with what the buffer holds. -/
  buffer : Option (Nat → BitVec 8)
  /-- Both pids have a task with an `mm`. -/
  tasks : Bool
  /-- The two tasks share their `mm`. -/
  sameMm : Bool
  /-- `find_vma` finds a vma for the first heap. -/
  vma : Bool
  /-- `CONFIG_DEBUG_VM`, which makes `VM_BUG_ON_PAGE` a test. -/
  debugVm : Bool

inductive Status
  | running
  | returned (ret : Int)
  /-- A NULL pointer has been followed. -/
  | oops
  /-- `VM_BUG_ON_PAGE`. -/
  | bug
  /-- The module waits for a lock it holds. -/
  | deadlock
  deriving DecidableEq, Repr

structure Walk where
  status : Status
  i : BitVec 64
  i2 : BitVec 64
  contents : Contents
  oldContent : Nat → BitVec 8
  /-- `mm->page_table_lock` and `mm2->page_table_lock` are held. -/
  locked : Bool
  locked2 : Bool
  /-- `old_content` has been freed. -/
  freed : Bool
  /-- `vma->vm_ops` is `&file_ops`. -/
  fileOps : Bool
  /-- The pairs for which the body has been entered; no step reads them. -/
  visited : List (BitVec 64 × BitVec 64)

/-- `PAGE_SIZE`. -/
def pageSize : Nat := 4096

/-! ## The module -/

/-- `init_module` up to the loop. -/
def enter (x : Load) (mem : Contents) : Walk :=
  let w : Walk :=
    ⟨.running, x.mm.startBrk, x.mm2.startBrk, mem, x.buffer.getD fun _ => 0, false, false, false,
      false, []⟩
  if !x.tasks then { w with status := .oops }
  -- the second `spin_lock` would wait for the first
  else if x.sameMm then { w with locked := true, status := .deadlock }
  else if !x.vma then { w with locked := true, locked2 := true, status := .oops }
  else { w with locked := true, locked2 := true, fileOps := true }

/-- One turn of the loop over `j`. -/
def swapByte (f f2 : Frame) (j : Nat) (w : Walk) : Walk :=
  let oldContent := Function.update w.oldContent j (w.contents (f2, j))
  let contents := Function.update w.contents (f2, j) (w.contents (f, j))
  { w with oldContent := oldContent, contents := Function.update contents (f, j) (oldContent j) }

/-- The loop from `j` on, with `left` turns to go. -/
def swapBytes (f f2 : Frame) : Nat → Nat → Walk → Walk
  | 0, _, w => w
  | left + 1, j, w => swapBytes f f2 left (j + 1) (swapByte f f2 j w)

inductive Check
  | pass | refuse | bug
  deriving DecidableEq, Repr

/-- The tests of `newPage`. The locks they take they give back, and the
loops over the vmas only print. -/
def checkPage (x : Load) (newPage : PageFlags) : Check :=
  if newPage.anon then
    if newPage.anonVma then .pass else .refuse
  else if !newPage.ksm then
    if x.debugVm && !newPage.locked then .bug
    else if newPage.mapping then .pass else .refuse
  else .pass

/-- The part of the body for two present pages. -/
def copyPage (x : Load) (f f2 : Frame) (w : Walk) : Walk :=
  match checkPage x (x.page f) with
  | .refuse => { w with status := .returned (-1) }
  | .bug => { w with status := .bug }
  | .pass =>
      -- `old_content` is not tested before it is written
      if x.buffer.isSome then swapBytes f f2 pageSize 0 w else { w with status := .oops }

/-- The body of the loop. -/
def body (x : Load) (w : Walk) : Walk :=
  match x.mm.pteOffsetMap w.i, x.mm2.pteOffsetMap w.i2 with
  | some pte, some pte2 =>
      if pte.present && pte2.present then copyPage x pte.frame pte2.frame w else w
  -- nothing is done for a page that is absent from one of the heaps
  | _, _ => w

/-- What follows the loop. -/
def leave (w : Walk) : Walk :=
  { w with freed := true, locked2 := false, locked := false, status := .returned 0 }

/-- One turn of the loop, or its end. -/
def turn (x : Load) (w : Walk) : Walk :=
  match w.status with
  | .running =>
      if w.i ≠ x.mm.brk ∧ w.i2 ≠ x.mm2.brk then
        let w := body x { w with visited := w.visited ++ [(w.i, w.i2)] }
        match w.status with
        | .running =>
            { w with i := w.i + BitVec.ofNat 64 pageSize, i2 := w.i2 + BitVec.ofNat 64 pageSize }
        | _ => w
      else leave w
  | _ => w

/-- `init_module` after this many turns. -/
def initModule (x : Load) (mem : Contents) : Nat → Walk
  | 0 => enter x mem
  | n + 1 => turn x (initModule x mem n)

/-! ## The pages of the walk -/

/-- The address of the page with this index. -/
def Mm.addr (mm : Mm) (p : Nat) : BitVec 64 := mm.startBrk + BitVec.ofNat 64 (pageSize * p)

/-- The frame of a present page. -/
def Mm.frame? (mm : Mm) (p : Nat) : Option Frame :=
  match mm.pteOffsetMap (mm.addr p) with
  | some pte => if pte.present then some pte.frame else none
  | none => none

namespace Load

variable (x : Load)

/-- The loop is reached. -/
def Enters : Prop := x.tasks = true ∧ x.sameMm = false ∧ x.vma = true

/-- The test of the loop fails at this page. -/
def Ended (p : Nat) : Prop := x.mm.addr p = x.mm.brk ∨ x.mm2.addr p = x.mm2.brk

/-- How the body of this page leaves the walk. -/
def outcome (p : Nat) : Status :=
  match x.mm.frame? p, x.mm2.frame? p with
  | some f, some _ =>
      match checkPage x (x.page f) with
      | .refuse => .returned (-1)
      | .bug => .bug
      | .pass => if x.buffer.isSome then .running else .oops
  | _, _ => .running

/-- The bytes of two frames, from `j` on. -/
def bytePairs (f f2 : Frame) (j left : Nat) : List ((Frame × Nat) × (Frame × Nat)) :=
  (List.range' j left).map fun j => ((f, j), (f2, j))

/-- What the body exchanges at this page. -/
def pagePairs (p : Nat) : List ((Frame × Nat) × (Frame × Nat)) :=
  match x.mm.frame? p, x.mm2.frame? p with
  | some f, some f2 => bytePairs f f2 0 pageSize
  | _, _ => []

/-- What the first `k` bodies exchange. -/
def pairs (k : Nat) : List ((Frame × Nat) × (Frame × Nat)) :=
  (List.range k).flatMap x.pagePairs

/-- The loop comes to this page. -/
def Reaches (k : Nat) : Prop := ∀ q < k, ¬ x.Ended q ∧ x.outcome q = .running

end Load

variable {x : Load} {mem : Contents} {w : Walk} {k : Nat}

/-! ## One turn -/

theorem swapByte_contents (f f2 : Frame) (j : Nat) (w : Walk) :
    (swapByte f f2 j w).contents = Exchange.swap w.contents ((f, j), (f2, j)) := by
  rw [← Exchange.update_update_eq_swap]
  simp only [swapByte, Function.update_self]

/-- The loop over `j` exchanges the bytes and writes the buffer. -/
theorem swapBytes_eq (f f2 : Frame) (left j : Nat) (w : Walk) :
    ∃ old, swapBytes f f2 left j w = { w with
      oldContent := old
      contents := Exchange.exchange (Load.bytePairs f f2 j left) w.contents } := by
  induction left generalizing j w with
  | zero => exact ⟨w.oldContent, rfl⟩
  | succ left ih =>
      -- only `contents` matters afterwards; what the buffer holds is existential
      obtain ⟨old, hloop⟩ := ih (j + 1) (swapByte f f2 j w)
      refine ⟨old, ?_⟩
      rw [swapBytes, hloop, swapByte_contents]
      rfl

/-- The body copies when both pages have a frame. -/
theorem body_frames (hi : w.i = x.mm.addr k) (hi2 : w.i2 = x.mm2.addr k) :
    body x w = match x.mm.frame? k, x.mm2.frame? k with
      | some f, some f2 => copyPage x f f2 w
      | _, _ => w := by
  unfold body Mm.frame?
  rw [hi, hi2]
  cases x.mm.pteOffsetMap (x.mm.addr k) with
  | none => rfl
  | some pte =>
      cases x.mm2.pteOffsetMap (x.mm2.addr k) with
      | none => cases hp : pte.present <;> simp [hp]
      | some pte2 => cases hp : pte.present <;> cases hp2 : pte2.present <;> simp [hp, hp2]

/-- The body of a page lets the walk go on, with the pair exchanged, or
stops it and leaves the contents as they are. -/
theorem body_cases (hi : w.i = x.mm.addr k) (hi2 : w.i2 = x.mm2.addr k) :
    (x.outcome k = .running ∧ ∃ old, body x w = { w with
      oldContent := old
      contents := Exchange.exchange (x.pagePairs k) w.contents }) ∨
    (x.outcome k ≠ .running ∧ body x w = { w with status := x.outcome k }) := by
  rw [body_frames hi hi2, Load.outcome, Load.pagePairs]
  cases x.mm.frame? k with
  | none => exact .inl ⟨rfl, w.oldContent, rfl⟩
  | some f =>
      cases x.mm2.frame? k with
      | none => exact .inl ⟨rfl, w.oldContent, rfl⟩
      | some f2 =>
          dsimp only [copyPage]
          cases checkPage x (x.page f) with
          | refuse => exact .inr ⟨Status.noConfusion, rfl⟩
          | bug => exact .inr ⟨Status.noConfusion, rfl⟩
          | pass =>
              cases x.buffer with
              | none => exact .inr ⟨Status.noConfusion, rfl⟩
              | some buffer =>
                  simp only [Option.isSome_some, if_true]
                  exact .inl ⟨trivial, swapBytes_eq f f2 pageSize 0 w⟩

/-! ## The run -/

/-- The walk has come to page `k`. -/
structure Going (x : Load) (mem : Contents) (k : Nat) (w : Walk) : Prop where
  status : w.status = .running
  i : w.i = x.mm.addr k
  i2 : w.i2 = x.mm2.addr k
  contents : w.contents = Exchange.exchange (x.pairs k) mem
  locked : w.locked = true
  locked2 : w.locked2 = true
  freed : w.freed = false
  visited : w.visited = (List.range k).map fun p => (x.mm.addr p, x.mm2.addr p)

/-- The walk has left the loop at its head, at page `k`. -/
structure Finished (x : Load) (mem : Contents) (k : Nat) (w : Walk) : Prop where
  ended : x.Ended k
  status : w.status = .returned 0
  contents : w.contents = Exchange.exchange (x.pairs k) mem
  locked : w.locked = false
  locked2 : w.locked2 = false
  freed : w.freed = true
  visited : w.visited = (List.range k).map fun p => (x.mm.addr p, x.mm2.addr p)

/-- The walk has stopped in the body of page `k`. -/
structure Halted (x : Load) (mem : Contents) (k : Nat) (w : Walk) : Prop where
  notEnded : ¬ x.Ended k
  outcome : x.outcome k ≠ .running
  status : w.status = x.outcome k
  contents : w.contents = Exchange.exchange (x.pairs k) mem
  locked : w.locked = true
  locked2 : w.locked2 = true
  freed : w.freed = false
  visited : w.visited = (List.range (k + 1)).map fun p => (x.mm.addr p, x.mm2.addr p)

theorem Load.pairs_succ (x : Load) (k : Nat) : x.pairs (k + 1) = x.pairs k ++ x.pagePairs k := by
  rw [Load.pairs, List.range_succ, List.flatMap_append, List.flatMap_singleton, Load.pairs]

theorem Mm.addr_succ (mm : Mm) (p : Nat) :
    mm.addr (p + 1) = mm.addr p + BitVec.ofNat 64 pageSize := by
  rw [Mm.addr, Mm.addr, Nat.mul_succ, BitVec.ofNat_add, BitVec.add_assoc]

theorem Mm.addr_toNat (mm : Mm) (p : Nat) :
    (mm.addr p).toNat = (mm.startBrk.toNat + pageSize * p) % 2 ^ 64 := by
  rw [Mm.addr, BitVec.toNat_add, BitVec.toNat_ofNat, Nat.add_mod_mod]

theorem turn_of_running (h : w.status = .running) :
    turn x w = if w.i ≠ x.mm.brk ∧ w.i2 ≠ x.mm2.brk then
        let w := body x { w with visited := w.visited ++ [(w.i, w.i2)] }
        match w.status with
        | .running =>
            { w with i := w.i + BitVec.ofNat 64 pageSize, i2 := w.i2 + BitVec.ofNat 64 pageSize }
        | _ => w
      else leave w := by
  unfold turn
  split
  · rfl
  · contradiction

theorem turn_of_stopped (h : w.status ≠ .running) : turn x w = w := by
  unfold turn
  cases hst : w.status with
  | running => exact absurd hst h
  | _ => rfl

/-- **The step.** -/
theorem Going.turn (h : Going x mem k w) :
    (¬ x.Ended k ∧ x.outcome k = .running ∧ Going x mem (k + 1) (turn x w)) ∨
      Finished x mem k (turn x w) ∨ Halted x mem k (turn x w) := by
  obtain ⟨hstatus, hi, hi2, hcontents, hlocked, hlocked2, hfreed, hvisited⟩ := h
  have hseen : w.visited ++ [(w.i, w.i2)] =
      (List.range (k + 1)).map fun p => (x.mm.addr p, x.mm2.addr p) := by
    rw [List.range_succ, List.map_append, hvisited, hi, hi2]
    rfl
  -- the three outcomes of a turn: the head of the loop, a body that goes on, a body that stops
  by_cases hended : x.Ended k
  · right
    left
    have hstop : ¬ (w.i ≠ x.mm.brk ∧ w.i2 ≠ x.mm2.brk) := by
      rw [hi, hi2, not_and_or, not_not, not_not]
      exact hended
    rw [turn_of_running hstatus, if_neg hstop]
    exact ⟨hended, rfl, hcontents, rfl, rfl, rfl, hvisited⟩
  · have hgo : w.i ≠ x.mm.brk ∧ w.i2 ≠ x.mm2.brk := by
      rw [hi, hi2]
      exact not_or.mp hended
    rcases body_cases (x := x) (k := k)
      (w := { w with visited := w.visited ++ [(w.i, w.i2)] }) hi hi2 with
      ⟨hout, old, hbody⟩ | ⟨hout, hbody⟩
    · left
      rw [turn_of_running hstatus, if_pos hgo, hbody]
      simp only [hstatus]
      refine ⟨hended, hout, rfl, ?_, ?_, ?_, hlocked, hlocked2, hfreed, hseen⟩
      · rw [Mm.addr_succ, hi]
      · rw [Mm.addr_succ, hi2]
      · rw [Load.pairs_succ, Exchange.exchange_append, hcontents]
    · right
      right
      rw [turn_of_running hstatus, if_pos hgo, hbody]
      dsimp only
      split
      · contradiction
      · exact ⟨hended, hout, rfl, hcontents, hlocked, hlocked2, hfreed, hseen⟩

theorem enter_going (hx : x.Enters) (mem : Contents) : Going x mem 0 (enter x mem) := by
  obtain ⟨htasks, hmm, hvma⟩ := hx
  have haddr : ∀ mm : Mm, mm.addr 0 = mm.startBrk := fun mm => BitVec.add_zero mm.startBrk
  simp only [enter, htasks, hmm, hvma, Bool.not_true, Bool.false_eq_true, if_false]
  exact ⟨rfl, (haddr x.mm).symm, (haddr x.mm2).symm, rfl, rfl, rfl, rfl, rfl⟩

/-- **The run.** Up to page `k` the walk goes on, or it has stopped at a page
it has come to. -/
theorem initModule_cases (hx : x.Enters) (mem : Contents) (n : Nat) :
    (x.Reaches n ∧ Going x mem n (initModule x mem n)) ∨
      ∃ k < n, x.Reaches k ∧ (Finished x mem k (initModule x mem n) ∨
        Halted x mem k (initModule x mem n)) := by
  induction n with
  | zero => exact .inl ⟨fun q hq => absurd hq (Nat.not_lt_zero q), enter_going hx mem⟩
  | succ n ih =>
      rw [initModule]
      rcases ih with ⟨hreach, hgoing⟩ | ⟨k, hk, hreach, hstop⟩
      · rcases hgoing.turn with ⟨hended, hout, hnext⟩ | hstop
        · refine .inl ⟨fun q hq => ?_, hnext⟩
          rcases Nat.lt_succ_iff_lt_or_eq.mp hq with hq | rfl
          · exact hreach q hq
          · exact ⟨hended, hout⟩
        · exact .inr ⟨n, Nat.lt_succ_self n, hreach, hstop⟩
      -- a walk that has stopped stays as it is
      · refine .inr ⟨k, Nat.lt_succ_of_lt hk, hreach, ?_⟩
        rw [turn_of_stopped]
        · exact hstop
        · rcases hstop with hfin | hhalt
          · rw [hfin.status]
            exact Status.noConfusion
          · rw [hhalt.status]
            exact hhalt.outcome

/-! ## What it returns -/

theorem enter_of_not_enters (hx : ¬ x.Enters) (mem : Contents) :
    (enter x mem).status = .oops ∨ (enter x mem).status = .deadlock := by
  unfold enter
  cases htasks : x.tasks with
  | false => exact .inl rfl
  | true =>
      cases hmm : x.sameMm with
      | true => exact .inr rfl
      | false =>
          cases hvma : x.vma with
          | false => exact .inl rfl
          | true => exact absurd ⟨htasks, hmm, hvma⟩ hx

theorem enter_visited (x : Load) (mem : Contents) : (enter x mem).visited = [] := by
  cases htasks : x.tasks <;> cases hmm : x.sameMm <;> cases hvma : x.vma <;>
    simp [enter, htasks, hmm, hvma]

theorem initModule_of_stopped (h : (enter x mem).status ≠ .running) (n : Nat) :
    initModule x mem n = enter x mem := by
  induction n with
  | zero => rfl
  | succ n ih => rw [initModule, ih, turn_of_stopped h]

/-- A load that does not reach the loop does not return. -/
theorem enters_of_returned {n : Nat} {ret : Int}
    (h : (initModule x mem n).status = .returned ret) : x.Enters := by
  by_contra hx
  rcases enter_of_not_enters hx mem with hst | hst
  · rw [initModule_of_stopped (by rw [hst]; exact Status.noConfusion), hst] at h
    cases h
  · rw [initModule_of_stopped (by rw [hst]; exact Status.noConfusion), hst] at h
    cases h

theorem Load.outcome_ne_zero (x : Load) (k : Nat) : x.outcome k ≠ .returned 0 := by
  unfold Load.outcome
  split
  · split
    · exact fun h => absurd (Status.returned.inj h) (by decide)
    · exact Status.noConfusion
    · split <;> exact Status.noConfusion
  · exact Status.noConfusion

/-- The load returns 0 from the head of the loop. -/
theorem finished_of_returned {n : Nat} (h : (initModule x mem n).status = .returned 0) :
    ∃ k, x.Reaches k ∧ Finished x mem k (initModule x mem n) := by
  rcases initModule_cases (enters_of_returned h) mem n with
    ⟨-, hgoing⟩ | ⟨k, -, hreach, hfin | hhalt⟩
  · rw [hgoing.status] at h
    cases h
  · exact ⟨k, hreach, hfin⟩
  · rw [hhalt.status] at h
    exact absurd h (x.outcome_ne_zero k)

/-- It returns -1 from the body of a page. -/
theorem halted_of_returned {n : Nat} (h : (initModule x mem n).status = .returned (-1)) :
    ∃ k, x.Reaches k ∧ Halted x mem k (initModule x mem n) := by
  rcases initModule_cases (enters_of_returned h) mem n with
    ⟨-, hgoing⟩ | ⟨k, -, hreach, hfin | hhalt⟩
  · rw [hgoing.status] at h
    cases h
  · rw [hfin.status] at h
    cases h
  · exact ⟨k, hreach, hhalt⟩

end MegaVM.HeapCopy
