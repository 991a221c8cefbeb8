import MegaVM.HeapCopy.FileFault

/-!
# When the walk ends

The loop stops when one of its counters is equal to the end of its heap.
The counters go by pages from aligned starts, but `brk` may be any byte
address: an end that is not on a page boundary is stepped over. Then the
other end has to stop the walk, and before the walk has left the first
heap.
-/

namespace MegaVM.HeapCopy

/-- With these ends every load leaves the loop, and the body has only run
for addresses inside both heaps. -/
def WalkEnds (startBrk brk startBrk2 brk2 : BitVec 64) : Prop :=
  ∀ x : Load, x.mm.startBrk = startBrk → x.mm.brk = brk →
    x.mm2.startBrk = startBrk2 → x.mm2.brk = brk2 → ∀ mem,
    (∃ n, (initModule x mem n).status ≠ .running) ∧
      ∀ n, ∀ v ∈ (initModule x mem n).visited,
        (startBrk ≤ v.1 ∧ v.1 < brk) ∧ startBrk2 ≤ v.2 ∧ v.2 < brk2

/-- What the counters have advanced by after `p` turns. -/
def advanced (p : Nat) : Nat := pageSize * p % 2 ^ 64

/-- At some page one counter has come to the end of its heap of `a` or `b`
bytes, and before it both are inside. -/
def Stops (a b : Nat) : Prop :=
  ∃ k, (advanced k = a ∨ advanced k = b) ∧ ∀ p < k, advanced p < a ∧ advanced p < b

/-- One of the heaps ends on a page boundary and is less than a page longer
than the other. -/
def Fits (a b : Nat) : Prop :=
  a % pageSize = 0 ∧ a < b + pageSize ∨ b % pageSize = 0 ∧ b < a + pageSize

instance (a b : Nat) : Decidable (Fits a b) :=
  inferInstanceAs (Decidable
    (a % pageSize = 0 ∧ a < b + pageSize ∨ b % pageSize = 0 ∧ b < a + pageSize))

/-! ## The arithmetic of the counters -/

theorem advanced_of_lt {p : Nat} (h : pageSize * p < 2 ^ 64) : advanced p = pageSize * p :=
  Nat.mod_eq_of_lt h

theorem Stops.symm {a b : Nat} (h : Stops a b) : Stops b a := by
  obtain ⟨k, hk, hin⟩ := h
  exact ⟨k, hk.symm, fun p hp => (hin p hp).symm⟩

/-- The walk is stopped by the end at `a`. -/
theorem stops_of_aligned {a b : Nat} (ha : a < 2 ^ 64) (hal : a % pageSize = 0)
    (hlt : a < b + pageSize) : Stops a b := by
  rw [pageSize] at hal hlt
  refine ⟨a / pageSize, .inl ?_, fun p hp => ?_⟩
  · rw [advanced_of_lt (by rw [pageSize]; omega), pageSize]
    omega
  · rw [pageSize] at hp
    rw [advanced_of_lt (by rw [pageSize]; omega), pageSize]
    omega

/-- The end that stops the walk is on a page boundary, and the last page is
inside both heaps. -/
theorem fits_of_stop {a b k : Nat} (hk : advanced k = a)
    (hin : ∀ p < k, advanced p < a ∧ advanced p < b) :
    a % pageSize = 0 ∧ a < b + pageSize := by
  have hal : a % pageSize = 0 := by
    rw [← hk, advanced, pageSize]
    omega
  refine ⟨hal, ?_⟩
  cases k with
  | zero =>
      have : a = 0 := hk.symm
      rw [pageSize]
      omega
  | succ k =>
      -- the page before the end is inside both heaps
      obtain ⟨hlast, hlast2⟩ := hin k (Nat.lt_succ_self k)
      rw [advanced, pageSize] at hk hlast hlast2
      rw [pageSize] at hal ⊢
      omega

theorem stops_iff {a b : Nat} (ha : a < 2 ^ 64) (hb : b < 2 ^ 64) : Stops a b ↔ Fits a b := by
  constructor
  · rintro ⟨k, hk | hk, hin⟩
    · exact .inl (fits_of_stop hk hin)
    · exact .inr (fits_of_stop hk fun p hp => (hin p hp).symm)
  · rintro (⟨hal, hlt⟩ | ⟨hal, hlt⟩)
    · exact stops_of_aligned ha hal hlt
    · exact (stops_of_aligned hb hal hlt).symm

/-! ## The walk -/

section Addresses

variable (mm : Mm) (h : mm.startBrk ≤ mm.brk) (p : Nat)

include h

theorem Mm.addr_eq_brk_iff :
    mm.addr p = mm.brk ↔ advanced p = mm.brk.toNat - mm.startBrk.toNat := by
  have hle : mm.startBrk.toNat ≤ mm.brk.toNat := BitVec.le_def.mp h
  have hlt := mm.brk.isLt
  rw [← BitVec.toNat_inj, Mm.addr_toNat, advanced, pageSize]
  omega

theorem Mm.addr_inside_iff :
    mm.startBrk ≤ mm.addr p ∧ mm.addr p < mm.brk ↔
      advanced p < mm.brk.toNat - mm.startBrk.toNat := by
  have hle : mm.startBrk.toNat ≤ mm.brk.toNat := BitVec.le_def.mp h
  have hlt := mm.brk.isLt
  rw [BitVec.le_def, BitVec.lt_def, Mm.addr_toNat, advanced, pageSize]
  omega

end Addresses

/-- The body has run for the first pages, none of which is an end. -/
theorem visited_eq {x : Load} (hx : x.Enters) (mem : Contents) (n : Nat) :
    ∃ k, (∀ p < k, ¬ x.Ended p) ∧
      (initModule x mem n).visited =
        (List.range k).map fun p => (x.mm.addr p, x.mm2.addr p) := by
  rcases initModule_cases hx mem n with ⟨hreach, hgoing⟩ | ⟨k, -, hreach, hfin | hhalt⟩
  · exact ⟨n, fun p hp => (hreach p hp).1, hgoing.visited⟩
  · exact ⟨k, fun p hp => (hreach p hp).1, hfin.visited⟩
  · refine ⟨k + 1, fun p hp => ?_, hhalt.visited⟩
    rcases Nat.lt_succ_iff_lt_or_eq.mp hp with hp | rfl
    · exact (hreach p hp).1
    · exact hhalt.notEnded

/-- An end stops the walk. -/
theorem stopped_of_ended {x : Load} {k : Nat} (hx : x.Enters) (hk : x.Ended k)
    (mem : Contents) : (initModule x mem (k + 1)).status ≠ .running := by
  rcases initModule_cases hx mem (k + 1) with ⟨hreach, -⟩ | ⟨l, -, -, hfin | hhalt⟩
  · exact absurd hk (hreach k (Nat.lt_succ_self k)).1
  · rw [hfin.status]
    exact Status.noConfusion
  · rw [hhalt.status]
    exact hhalt.outcome

theorem aligned_of_addr_eq_brk {mm : Mm} {p : Nat} (hle : mm.startBrk ≤ mm.brk)
    (hal : mm.startBrk.toNat % pageSize = 0) (h : mm.addr p = mm.brk) :
    mm.brk.toNat % pageSize = 0 := by
  have hadv := (mm.addr_eq_brk_iff hle p).mp h
  have hle' : mm.startBrk.toNat ≤ mm.brk.toNat := BitVec.le_def.mp hle
  rw [advanced, pageSize] at hadv
  rw [pageSize] at hal ⊢
  omega

/-- With both ends off the page boundaries, a walk that no page stops goes
on for ever, and holds both locks. -/
theorem initModule_hangs {x : Load} (hx : x.Enters) (hle : x.mm.startBrk ≤ x.mm.brk)
    (hle2 : x.mm2.startBrk ≤ x.mm2.brk) (hal : x.mm.startBrk.toNat % pageSize = 0)
    (hal2 : x.mm2.startBrk.toNat % pageSize = 0) (hoff : x.mm.brk.toNat % pageSize ≠ 0)
    (hoff2 : x.mm2.brk.toNat % pageSize ≠ 0) (hpass : ∀ p, x.outcome p = .running)
    (mem : Contents) (n : Nat) : Going x mem n (initModule x mem n) := by
  rcases initModule_cases hx mem n with ⟨-, hgoing⟩ | ⟨k, -, -, hfin | hhalt⟩
  · exact hgoing
  · rcases hfin.ended with hend | hend
    · exact absurd (aligned_of_addr_eq_brk hle hal hend) hoff
    · exact absurd (aligned_of_addr_eq_brk hle2 hal2 hend) hoff2
  · exact absurd (hpass k) hhalt.outcome

variable {s b s2 b2 : BitVec 64}

/-- Heaps without a page in memory. -/
def absentHeaps (s b s2 b2 : BitVec 64) : Load where
  mm := ⟨s, b, fun _ => none⟩
  mm2 := ⟨s2, b2, fun _ => none⟩
  page := fun _ => ⟨false, false, false, false, false⟩
  buffer := some fun _ => 0
  tasks := true
  sameMm := false
  vma := true
  debugVm := false

theorem walkEnds_iff_stops (h : s ≤ b) (h2 : s2 ≤ b2) :
    WalkEnds s b s2 b2 ↔ Stops (b.toNat - s.toNat) (b2.toNat - s2.toNat) := by
  constructor
  · intro hends
    -- with every page absent no body stops the walk, so an end has to
    obtain ⟨⟨n, hn⟩, hin⟩ := hends (absentHeaps s b s2 b2) rfl rfl rfl rfl fun _ => 0
    rcases initModule_cases (x := absentHeaps s b s2 b2) ⟨rfl, rfl, rfl⟩ (fun _ => 0) n with
      ⟨-, hgoing⟩ | ⟨k, -, -, hfin | hhalt⟩
    · exact absurd hgoing.status hn
    · refine ⟨k, hfin.ended.imp (Mm.addr_eq_brk_iff _ h k).mp (Mm.addr_eq_brk_iff _ h2 k).mp, ?_⟩
      intro p hp
      have hseen := hin n _ (hfin.visited ▸ List.mem_map_of_mem (List.mem_range.mpr hp))
      exact ⟨(Mm.addr_inside_iff ⟨s, b, fun _ => none⟩ h p).mp hseen.1,
        (Mm.addr_inside_iff ⟨s2, b2, fun _ => none⟩ h2 p).mp hseen.2⟩
    · exact absurd rfl hhalt.outcome
  · rintro ⟨k, hk, hin⟩ x rfl rfl rfl rfl mem
    have hended : x.Ended k :=
      hk.imp (x.mm.addr_eq_brk_iff h k).mpr (x.mm2.addr_eq_brk_iff h2 k).mpr
    by_cases hx : x.Enters
    · refine ⟨⟨k + 1, stopped_of_ended hx hended mem⟩, ?_⟩
      intro n v hv
      obtain ⟨l, hl, hvisited⟩ := visited_eq hx mem n
      rw [hvisited] at hv
      obtain ⟨p, hp, rfl⟩ := List.mem_map.mp hv
      -- no body runs from the end on
      have hpk : p < k := by
        by_contra hkp
        exact hl k (by have := List.mem_range.mp hp; omega) hended
      exact ⟨(x.mm.addr_inside_iff h p).mpr (hin p hpk).1,
        (x.mm2.addr_inside_iff h2 p).mpr (hin p hpk).2⟩
    · have hstop : (enter x mem).status ≠ .running := by
        rcases enter_of_not_enters hx mem with hst | hst <;> rw [hst] <;>
          exact Status.noConfusion
      refine ⟨⟨0, hstop⟩, ?_⟩
      intro n v hv
      rw [initModule_of_stopped hstop, enter_visited] at hv
      cases hv

/-- **The walk ends inside both heaps exactly when** one of the two ends is
on a page boundary and its heap is less than a page longer than the
other. -/
theorem walkEnds_iff (h : s ≤ b) (h2 : s2 ≤ b2) (hal : s.toNat % pageSize = 0)
    (hal2 : s2.toNat % pageSize = 0) :
    WalkEnds s b s2 b2 ↔
      b.toNat % pageSize = 0 ∧ b.toNat - s.toNat < b2.toNat - s2.toNat + pageSize ∨
      b2.toNat % pageSize = 0 ∧ b2.toNat - s2.toNat < b.toNat - s.toNat + pageSize := by
  have hle : s.toNat ≤ b.toNat := BitVec.le_def.mp h
  have hle2 : s2.toNat ≤ b2.toNat := BitVec.le_def.mp h2
  have hlt := b.isLt
  have hlt2 := b2.isLt
  rw [walkEnds_iff_stops h h2, stops_iff (by omega) (by omega), Fits]
  rw [pageSize] at *
  omega

/-- Two whole heaps. -/
theorem walkEnds_whole : WalkEnds 0x1000 0x3000 0x5000 0x6000 :=
  (walkEnds_iff (by decide) (by decide) (by decide) (by decide)).mpr (by decide)

/-- Two heaps of one byte: the walk runs over both ends. -/
theorem not_walkEnds : ¬ ∀ s b s2 b2 : BitVec 64, s ≤ b → s2 ≤ b2 →
    s.toNat % pageSize = 0 → s2.toNat % pageSize = 0 → WalkEnds s b s2 b2 := by
  intro hall
  have hends := hall 0x1000 0x1001 0x5000 0x5001 (by decide) (by decide) (by decide) (by decide)
  rw [walkEnds_iff_stops (by decide) (by decide), stops_iff (by decide) (by decide)] at hends
  revert hends
  decide

end MegaVM.HeapCopy
