import MegaVM.HeapCopy.FileFault

/-!
# Which pages are exchanged

A load that returns 0 on two heaps of whole pages has met the end of the
shorter one. When heap pages share a frame only at the same index, as after
a fork, no byte belongs to two of the pairs it has exchanged.
-/

namespace MegaVM.HeapCopy

/-- The heap is `n` whole pages. -/
def Mm.WholePages (mm : Mm) (n : Nat) : Prop := mm.brk.toNat = mm.startBrk.toNat + pageSize * n

instance (mm : Mm) (n : Nat) : Decidable (mm.WholePages n) :=
  inferInstanceAs (Decidable (mm.brk.toNat = mm.startBrk.toNat + pageSize * n))

/-- Pages of the two heaps share a frame only at the same index. -/
def FramesApart (mm mm' : Mm) (n n' : Nat) : Prop :=
  ∀ p < n, ∀ q < n', ∀ f, mm.frame? p = some f → mm'.frame? q = some f → p = q

/-- No two heap pages share a frame, except at the same index in the two
processes. -/
structure Separate (x : Load) (n n2 : Nat) : Prop where
  first : FramesApart x.mm x.mm n n
  second : FramesApart x.mm2 x.mm2 n2 n2
  cross : FramesApart x.mm x.mm2 n n2

/-- The pages both heaps have are exchanged, the other pages of the heaps
and all other frames are as before. -/
structure Exchanged (x : Load) (n n2 : Nat) (mem mem' : Contents) : Prop where
  pages : ∀ p < min n n2, ∀ f f2, x.mm.frame? p = some f → x.mm2.frame? p = some f2 →
    ∀ j < pageSize, mem' (f, j) = mem (f2, j) ∧ mem' (f2, j) = mem (f, j)
  first : ∀ p < n, ∀ f, x.mm.frame? p = some f → (p < n2 → x.mm2.frame? p = none) →
    ∀ j, mem' (f, j) = mem (f, j)
  second : ∀ p < n2, ∀ f2, x.mm2.frame? p = some f2 → (p < n → x.mm.frame? p = none) →
    ∀ j, mem' (f2, j) = mem (f2, j)
  rest : ∀ f, (∀ p < n, x.mm.frame? p ≠ some f) → (∀ p < n2, x.mm2.frame? p ≠ some f) →
    ∀ j, mem' (f, j) = mem (f, j)

variable {x : Load} {mem : Contents} {n n2 k p : Nat}

/-! ## The end of the walk -/

/-- Inside a heap of whole pages the loop meets the end at its index. -/
theorem Mm.WholePages.addr_eq_brk {mm : Mm} (h : mm.WholePages n) (hp : p ≤ n) :
    mm.addr p = mm.brk ↔ p = n := by
  have hlt := mm.brk.isLt
  rw [WholePages, pageSize] at h
  rw [← BitVec.toNat_inj, Mm.addr_toNat, pageSize]
  omega

theorem ended_min (hn : x.mm.WholePages n) (hn2 : x.mm2.WholePages n2) :
    x.Ended (min n n2) := by
  rcases Nat.le_total n n2 with hmin | hmin
  · rw [Nat.min_eq_left hmin]
    exact .inl ((hn.addr_eq_brk (Nat.le_refl n)).mpr rfl)
  · rw [Nat.min_eq_right hmin]
    exact .inr ((hn2.addr_eq_brk (Nat.le_refl n2)).mpr rfl)

/-- A walk that ends at the head of the loop ends with the shorter heap. -/
theorem Finished.eq_min {w : Walk} (h : Finished x mem k w) (hreach : x.Reaches k)
    (hn : x.mm.WholePages n) (hn2 : x.mm2.WholePages n2) : k = min n n2 := by
  have hle : k ≤ min n n2 := by
    -- a longer walk would have passed the end of the shorter heap
    by_contra hlt
    exact (hreach _ (Nat.lt_of_not_le hlt)).1 (ended_min hn hn2)
  rcases h.ended with hend | hend
  · have := (hn.addr_eq_brk (by omega)).mp hend
    omega
  · have := (hn2.addr_eq_brk (by omega)).mp hend
    omega

/-! ## The pairs -/

theorem Load.mem_bytePairs {f f2 : Frame} {pr : (Frame × Nat) × (Frame × Nat)} :
    pr ∈ bytePairs f f2 0 pageSize ↔ ∃ j < pageSize, pr = ((f, j), (f2, j)) := by
  rw [bytePairs, List.mem_map]
  constructor
  · rintro ⟨j, hj, rfl⟩
    have := List.mem_range'_1.mp hj
    exact ⟨j, by omega, rfl⟩
  · rintro ⟨j, hj, rfl⟩
    exact ⟨j, List.mem_range'_1.mpr ⟨Nat.zero_le j, by omega⟩, rfl⟩

theorem Load.mem_pagePairs {pr : (Frame × Nat) × (Frame × Nat)} :
    pr ∈ x.pagePairs p ↔ ∃ f f2, x.mm.frame? p = some f ∧ x.mm2.frame? p = some f2 ∧
      ∃ j < pageSize, pr = ((f, j), (f2, j)) := by
  unfold Load.pagePairs
  cases x.mm.frame? p with
  | none => simp
  | some f =>
      cases x.mm2.frame? p with
      | none => simp
      | some f2 =>
          dsimp only
          rw [mem_bytePairs]
          constructor
          · intro hpr
            exact ⟨f, f2, rfl, rfl, hpr⟩
          · rintro ⟨_, _, hf, hf2, hpr⟩
            cases hf
            cases hf2
            exact hpr

theorem Load.mem_pairs {pr : (Frame × Nat) × (Frame × Nat)} :
    pr ∈ x.pairs k ↔ ∃ p < k, ∃ f f2, x.mm.frame? p = some f ∧ x.mm2.frame? p = some f2 ∧
      ∃ j < pageSize, pr = ((f, j), (f2, j)) := by
  simp only [pairs, List.mem_flatMap, List.mem_range, mem_pagePairs]

/-- Bytes at different offsets are different bytes. -/
theorem apart_of_offset {f f2 g g2 : Frame} {j l : Nat} (h : j ≠ l) :
    Exchange.Apart ((f, j), (f2, j)) ((g, l), (g2, l)) :=
  ⟨⟨fun heq => h (Prod.ext_iff.mp heq).2, fun heq => h (Prod.ext_iff.mp heq).2⟩,
    fun heq => h (Prod.ext_iff.mp heq).2, fun heq => h (Prod.ext_iff.mp heq).2⟩

/-- No byte belongs to two pairs. -/
theorem Separate.pairs (h : Separate x n n2) (hk : k ≤ min n n2) :
    (x.pairs k).Pairwise Exchange.Apart := by
  rw [Load.pairs, List.pairwise_flatMap]
  constructor
  · -- within a page the offsets differ
    intro p _
    unfold Load.pagePairs
    split
    · rw [Load.bytePairs, List.pairwise_map]
      exact (List.pairwise_lt_range').imp fun hlt => apart_of_offset (Nat.ne_of_lt hlt)
    · exact List.Pairwise.nil
  · -- pages of different indices have different frames
    refine List.pairwise_lt_range.imp_of_mem ?_
    intro p q hp hq hlt pr hpr qr hqr
    have hpk := List.mem_range.mp hp
    have hqk := List.mem_range.mp hq
    obtain ⟨f, f2, hf, hf2, j, -, rfl⟩ := Load.mem_pagePairs.mp hpr
    obtain ⟨g, g2, hg, hg2, l, -, rfl⟩ := Load.mem_pagePairs.mp hqr
    refine ⟨⟨fun heq => ?_, fun heq => ?_⟩, fun heq => ?_, fun heq => ?_⟩
    · cases heq
      have := h.first p (by omega) q (by omega) f hf hg
      omega
    · cases heq
      have := h.cross p (by omega) q (by omega) f hf hg2
      omega
    · cases heq
      have := h.cross q (by omega) p (by omega) f2 hg hf2
      omega
    · cases heq
      have := h.second p (by omega) q (by omega) f2 hf2 hg2
      omega

/-! ## The exchange -/

/-- What the walk has exchanged at the end of the shorter heap. -/
theorem Separate.exchanged (h : Separate x n n2) (mem : Contents) :
    Exchanged x n n2 mem (Exchange.exchange (x.pairs (min n n2)) mem) := by
  -- a frame that belongs to no exchanged pair keeps its bytes
  have hframe : ∀ f, (∀ p < min n n2, ∀ g g2, x.mm.frame? p = some g →
      x.mm2.frame? p = some g2 → f ≠ g ∧ f ≠ g2) → ∀ j,
      Exchange.exchange (x.pairs (min n n2)) mem (f, j) = mem (f, j) := by
    intro f hf j
    apply Exchange.exchange_of_ne
    intro pr hpr
    obtain ⟨p, hp, g, g2, hg, hg2, l, -, rfl⟩ := Load.mem_pairs.mp hpr
    obtain ⟨hne, hne2⟩ := hf p hp g g2 hg hg2
    exact ⟨fun heq => hne (Prod.ext_iff.mp heq).1, fun heq => hne2 (Prod.ext_iff.mp heq).1⟩
  constructor
  · intro p hp f f2 hf hf2 j hj
    exact Exchange.exchange_mem (h.pairs (Nat.le_refl _))
      (Load.mem_pairs.mpr ⟨p, hp, f, f2, hf, hf2, j, hj, rfl⟩) mem
  · intro p hp f hf hother
    apply hframe
    intro q hq g g2 hg hg2
    constructor
    · rintro rfl
      obtain rfl := h.first p hp q (by omega) f hf hg
      rw [hother (by omega)] at hg2
      cases hg2
    · rintro rfl
      obtain rfl := h.cross p hp q (by omega) f hf hg2
      rw [hother (by omega)] at hg2
      cases hg2
  · intro p hp f hf hother
    apply hframe
    intro q hq g g2 hg hg2
    constructor
    · rintro rfl
      obtain rfl := h.cross q (by omega) p hp f hg hf
      rw [hother (by omega)] at hg
      cases hg
    · rintro rfl
      obtain rfl := h.second p hp q (by omega) f hf hg2
      rw [hother (by omega)] at hg
      cases hg
  · intro f hfirst hsecond
    apply hframe
    intro q hq g g2 hg hg2
    constructor
    · rintro rfl
      exact hfirst q (by omega) hg
    · rintro rfl
      exact hsecond q (by omega) hg2

/-- The contents a load leaves when it returns 0. -/
theorem contents_of_returned {turns : Nat} (hn : x.mm.WholePages n) (hn2 : x.mm2.WholePages n2)
    (h : (initModule x mem turns).status = .returned 0) :
    (initModule x mem turns).contents = Exchange.exchange (x.pairs (min n n2)) mem := by
  obtain ⟨k, hreach, hfin⟩ := finished_of_returned h
  rw [hfin.contents, hfin.eq_min hreach hn hn2]

/-- A load returns 0 when every page of the shorter heap lets it go on. -/
theorem initModule_returns (hx : x.Enters) (hn : x.mm.WholePages n) (hn2 : x.mm2.WholePages n2)
    (hpass : ∀ p < min n n2, x.outcome p = .running) (mem : Contents) :
    (initModule x mem (min n n2 + 1)).status = .returned 0 := by
  have hended := ended_min hn hn2
  rcases initModule_cases hx mem (min n n2 + 1) with
    ⟨hreach, -⟩ | ⟨k, hk, -, hfin | hhalt⟩
  · exact absurd hended (hreach _ (Nat.lt_succ_self _)).1
  · exact hfin.status
  · rcases Nat.lt_succ_iff_lt_or_eq.mp hk with hk | rfl
    · exact absurd (hpass k hk) hhalt.outcome
    · exact absurd hended hhalt.notEnded

/-- **The heap exchange.** A load that returns 0 has exchanged the pages
both heaps have and nothing else, and another one that returns 0 restores
the contents. -/
theorem initModule_exchanges {turns : Nat} (hn : x.mm.WholePages n) (hn2 : x.mm2.WholePages n2)
    (hsep : Separate x n n2) (h : (initModule x mem turns).status = .returned 0) :
    Exchanged x n n2 mem (initModule x mem turns).contents ∧
      ∀ x' : Load, x'.mm = x.mm → x'.mm2 = x.mm2 → ∀ turns',
        (initModule x' (initModule x mem turns).contents turns').status = .returned 0 →
        (initModule x' (initModule x mem turns).contents turns').contents = mem := by
  have hcontents := contents_of_returned hn hn2 h
  rw [hcontents]
  refine ⟨hsep.exchanged mem, ?_⟩
  intro x' hmm hmm2 turns' h'
  -- the pairs depend on the page tables only
  have hpairs : x'.pairs (min n n2) = x.pairs (min n n2) := by
    unfold Load.pairs Load.pagePairs
    rw [hmm, hmm2]
  rw [contents_of_returned (hmm ▸ hn) (hmm2 ▸ hn2) h', hpairs]
  exact Exchange.exchange_exchange (hsep.pairs (Nat.le_refl _)) mem

/-! ## Two heaps -/

/-- An anonymous page that is mapped. -/
def anonPage : PageFlags := ⟨true, true, false, false, false⟩

/-- Heaps of two pages and of one, with frames 1, 2 and 3. -/
def shortAndLong : Load where
  mm := ⟨0x1000, 0x3000, fun a => some ⟨true, a.toNat / 4096⟩⟩
  mm2 := ⟨0x5000, 0x6000, fun _ => some ⟨true, 3⟩⟩
  page := fun _ => anonPage
  buffer := some fun _ => 0
  tasks := true
  sameMm := false
  vma := true
  debugVm := false

/-- Every byte of a frame holds its number. -/
def numbered : Contents := fun a => BitVec.ofNat 8 a.1

theorem shortAndLong_separate : Separate shortAndLong 2 1 := by
  have hframes : ∀ p < 2, shortAndLong.mm.frame? p = some (p + 1) := by decide
  constructor
  · intro p hp q hq f hf hf'
    rw [hframes p hp] at hf
    rw [hframes q hq] at hf'
    cases hf
    cases hf'
    rfl
  · intro p hp q hq f _ _
    omega
  · intro p hp q _ f hf hf'
    rw [hframes p hp] at hf
    cases hf
    have hthree : some 3 = some (p + 1) := hf'
    have := Option.some.inj hthree
    omega

theorem shortAndLong_exchanged :
    Exchanged shortAndLong 2 1 numbered (initModule shortAndLong numbered 2).contents := by
  have hn : shortAndLong.mm.WholePages 2 := by decide
  have hn2 : shortAndLong.mm2.WholePages 1 := by decide
  have hpass : ∀ p < min 2 1, shortAndLong.outcome p = .running := by decide
  have hret := initModule_returns ⟨rfl, rfl, rfl⟩ hn hn2 hpass numbered
  exact (initModule_exchanges hn hn2 shortAndLong_separate hret).1

end MegaVM.HeapCopy
