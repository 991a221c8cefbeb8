import Mathlib.Data.BitVec
import Mathlib.Data.List.Basic
import MegaVM.Lib.Chunks

/-!
# The swap-entry log

`allocateArray` and `addInArray`, which exist three times: in `vmscan.c`
(the entries swapped out), in `memory.c` under names ending in `_IN` (the
entries swapped in) and in `pteStore.c`. The body is one definition,
`addElement`; the copies differ in the sizes of their arrays only.

A log whose cells hold the recorded sequence satisfies `Holds`, which
every call within the capacity keeps. The guard of the code looks at the
chunk cursor before the roll-over moves it, so the call after the last
cell is filled stores one element behind the allocation: the log is
confined to its cells exactly up to its capacity (`confined_iff`).
-/

namespace MegaVM

/-- `unsigned long`. -/
abbrev Ulong := BitVec 64

/-- The globals of one copy. -/
structure SwapLog where
  numberOfArrays : Nat
  maxSizeArray : Nat
  currentArray : Int
  currentIndex : Int
  /-- The cell `myPtes[i][j]`, once it has been stored to. -/
  cells : Int → Int → Option Ulong
  /-- The cells stored to, latest first; no function reads this. -/
  stores : List (Int × Int)

namespace SwapLog

/-- `allocateArray`, with the initial cursors. -/
def allocateArray (numberOfArrays maxSizeArray : Nat) : SwapLog :=
  ⟨numberOfArrays, maxSizeArray, 0, -1, fun _ _ => none, []⟩

/-- `myPtes[i][j] = element`. -/
def store (log : SwapLog) (i j : Int) (element : Ulong) : SwapLog :=
  { log with
    cells := fun x y => if x = i ∧ y = j then some element else log.cells x y
    stores := (i, j) :: log.stores }

/-- The cursors of the next store. -/
def advance (log : SwapLog) : SwapLog :=
  if log.currentIndex < log.maxSizeArray - 1 then
    { log with currentIndex := log.currentIndex + 1 }
  else
    -- the chunk is full, which the guard has not looked at
    { log with currentArray := log.currentArray + 1, currentIndex := 0 }

/-- The body of the three functions. -/
def addElement (log : SwapLog) (element : Ulong) : SwapLog :=
  if log.currentArray < log.numberOfArrays then
    let log := log.advance
    log.store log.currentArray log.currentIndex element
  else log

/-- One call after the other. -/
def record (add : SwapLog → Ulong → SwapLog) (log : SwapLog) (es : List Ulong) : SwapLog :=
  es.foldl add log

end SwapLog

/-! ## The three copies -/

namespace Vmscan

/-- The log of `vmscan.c`. -/
def log : SwapLog := SwapLog.allocateArray 20 20000

def addInArray : SwapLog → Ulong → SwapLog := SwapLog.addElement

end Vmscan

namespace Memory

/-- The log of `memory.c`. -/
def logIN : SwapLog := SwapLog.allocateArray 20 20000

def addInArrayIN : SwapLog → Ulong → SwapLog := SwapLog.addElement

end Memory

namespace PteStore

/-- The log of `pteStore.c`. -/
def log : SwapLog := SwapLog.allocateArray 5 100

def addInArray : SwapLog → Ulong → SwapLog := SwapLog.addElement

end PteStore

namespace SwapLog

/-! ## What the log holds -/

/-- The cursors after `n` elements. -/
def cursorsAfter (m n : Nat) : Int × Int :=
  if n = 0 then (0, -1) else ((Chunks.pos m (n - 1)).1, (Chunks.pos m (n - 1)).2)

/-- The log has recorded `es` and stored to no cell but theirs. -/
structure Holds (log : SwapLog) (n m : Nat) (es : List Ulong) : Prop where
  numberOfArrays : log.numberOfArrays = n
  maxSizeArray : log.maxSizeArray = m
  cursors : (log.currentArray, log.currentIndex) = cursorsAfter m es.length
  cells : ∀ k (h : k < es.length),
    log.cells (Chunks.pos m k).1 (Chunks.pos m k).2 = some es[k]
  stores : ∀ p ∈ log.stores, ∃ k < es.length,
    p = (((Chunks.pos m k).1 : Int), ((Chunks.pos m k).2 : Int))

theorem holds_allocateArray (n m : Nat) : Holds (allocateArray n m) n m [] :=
  ⟨rfl, rfl, rfl, fun k h => absurd h (by simp), fun p h => absurd h (by simp [allocateArray])⟩

/-- The cursors move to the position of the next element. -/
theorem Holds.advance {log : SwapLog} {n m : Nat} {es : List Ulong} (h : Holds log n m es)
    (hm : 0 < m) :
    log.advance = { log with
      currentArray := (Chunks.pos m es.length).1
      currentIndex := (Chunks.pos m es.length).2 } := by
  have hcur := h.cursors
  rw [SwapLog.advance, h.maxSizeArray]
  -- the first call starts from the cursors `(0, -1)`
  by_cases hes : es.length = 0
  · rw [cursorsAfter, if_pos hes, Prod.mk.injEq] at hcur
    rw [hcur.1, hcur.2, if_pos (by omega), hes, Chunks.pos_zero]
    simp
  · rw [cursorsAfter, if_neg hes, Prod.mk.injEq] at hcur
    have hnext := Chunks.next_pos hm (es.length - 1)
    rw [Nat.sub_add_cancel (by omega)] at hnext
    rw [hcur.1, hcur.2, ← hnext, Chunks.next]
    have hlt := Chunks.pos_snd_lt hm (es.length - 1)
    split
    · rw [if_pos (by omega)]
      simp
    · rw [if_neg (by omega)]
      simp

/-- A call within the capacity appends its element. -/
theorem Holds.addElement {log : SwapLog} {n m : Nat} {es : List Ulong}
    (h : Holds log n m es) (hm : 0 < m) (hcap : es.length < n * m) (e : Ulong) :
    Holds (log.addElement e) n m (es ++ [e]) := by
  have hchunk : (Chunks.pos m es.length).1 < n := (Chunks.pos_fst_lt hm).mpr hcap
  -- the cursors are still at the last element, inside the arrays
  have hguard : log.currentArray < log.numberOfArrays := by
    have hcur := h.cursors
    rw [h.numberOfArrays]
    by_cases hes : es.length = 0
    · rw [cursorsAfter, if_pos hes, Prod.mk.injEq] at hcur
      omega
    · rw [cursorsAfter, if_neg hes, Prod.mk.injEq] at hcur
      have := (Chunks.pos_fst_lt hm (k := es.length - 1)).mpr (by omega : es.length - 1 < n * m)
      omega
  rw [SwapLog.addElement, if_pos hguard, h.advance hm]
  refine ⟨h.numberOfArrays, h.maxSizeArray, ?_, ?_, ?_⟩
  · simp [cursorsAfter, store]
  · intro k hk
    simp only [List.length_append, List.length_singleton] at hk
    rcases Nat.lt_succ_iff_lt_or_eq.mp hk with hlt | rfl
    -- the new cell is not one of those already filled
    · have hne : Chunks.pos m k ≠ Chunks.pos m es.length := by
        intro heq
        have := Chunks.pos_injective m heq
        omega
      have hne' : ¬ (((Chunks.pos m k).1 : Int) = (Chunks.pos m es.length).1 ∧
          ((Chunks.pos m k).2 : Int) = (Chunks.pos m es.length).2) := by
        rintro ⟨h1, h2⟩
        exact hne (Prod.ext (by omega) (by omega))
      simp only [store, if_neg hne', List.getElem_append_left hlt]
      exact h.cells k hlt
    · simp [store]
  · intro p hp
    simp only [store, List.mem_cons] at hp
    rcases hp with rfl | hp
    · exact ⟨es.length, by simp, rfl⟩
    · obtain ⟨k, hk, rfl⟩ := h.stores p hp
      exact ⟨k, by simp; omega, rfl⟩

/-- Calls within the capacity append their elements. -/
theorem Holds.record {log : SwapLog} {n m : Nat} {es es' : List Ulong}
    (h : Holds log n m es) (hm : 0 < m) (hcap : (es ++ es').length ≤ n * m) :
    Holds (SwapLog.record SwapLog.addElement log es') n m (es ++ es') := by
  induction es' generalizing log es with
  | nil => simpa [SwapLog.record] using h
  | cons e es' ih =>
      have hlt : es.length < n * m := by
        rw [List.length_append, List.length_cons] at hcap
        omega
      have hstep := ih (h.addElement hm hlt e) (by simpa using hcap)
      simpa [SwapLog.record] using hstep

/-- The log of a sequence within the capacity holds it. -/
theorem holds_record {n m : Nat} (hm : 0 < m) {es : List Ulong} (hcap : es.length ≤ n * m) :
    Holds (record addElement (allocateArray n m) es) n m es :=
  (holds_allocateArray n m).record hm hcap

/-- The cursors tell how many elements there are. -/
theorem cursorsAfter_injective (m : Nat) {k l : Nat} (h : cursorsAfter m k = cursorsAfter m l) :
    k = l := by
  rw [cursorsAfter, cursorsAfter] at h
  split at h <;> rename_i hk <;> split at h <;> rename_i hl <;> rw [Prod.mk.injEq] at h
  · omega
  · omega
  · omega
  · have hpos : Chunks.pos m (k - 1) = Chunks.pos m (l - 1) := Prod.ext (by omega) (by omega)
    have := Chunks.pos_injective m hpos
    omega

/-- A log holds one sequence. -/
theorem Holds.unique {log : SwapLog} {n m : Nat} {es es' : List Ulong} (h : Holds log n m es)
    (h' : Holds log n m es') : es = es' := by
  have hlen : es.length = es'.length :=
    cursorsAfter_injective m (h.cursors.symm.trans h'.cursors)
  refine List.ext_getElem hlen fun k hk hk' => ?_
  exact Option.some.inj ((h.cells k hk).symm.trans (h'.cells k hk'))

/-- Element `k` is in chunk `k / m`, slot `k % m`, and the cursors are at
the last one. -/
structure LaidOut (log : SwapLog) (m : Nat) (es : List Ulong) : Prop where
  cells : ∀ k (h : k < es.length), log.cells (k / m : Nat) (k % m : Nat) = some es[k]
  cursors : 0 < es.length →
    log.currentArray = ((es.length - 1) / m : Nat) ∧
      log.currentIndex = ((es.length - 1) % m : Nat)

theorem Holds.laidOut {log : SwapLog} {n m : Nat} {es : List Ulong} (h : Holds log n m es) :
    LaidOut log m es := by
  refine ⟨h.cells, fun hpos => ?_⟩
  have hcur := h.cursors
  rw [cursorsAfter, if_neg (Nat.ne_of_gt hpos), Prod.mk.injEq] at hcur
  exact hcur

/-- **The layout of the three copies**, up to their capacity. -/
theorem addInArray_laidOut {n m : Nat} (hm : 0 < m) (es : List Ulong)
    (hcap : es.length ≤ n * m) :
    LaidOut (record Vmscan.addInArray (allocateArray n m) es) m es ∧
      LaidOut (record Memory.addInArrayIN (allocateArray n m) es) m es ∧
      LaidOut (record PteStore.addInArray (allocateArray n m) es) m es := by
  have hholds := holds_record hm hcap
  exact ⟨hholds.laidOut, hholds.laidOut, hholds.laidOut⟩

/-- Five elements over chunks of two. -/
theorem addInArray_laidOut_five :
    LaidOut (record Vmscan.addInArray (allocateArray 3 2) [5, 6, 7, 8, 9]) 2 [5, 6, 7, 8, 9] ∧
      LaidOut (record Memory.addInArrayIN (allocateArray 3 2) [5, 6, 7, 8, 9]) 2
        [5, 6, 7, 8, 9] ∧
      LaidOut (record PteStore.addInArray (allocateArray 3 2) [5, 6, 7, 8, 9]) 2
        [5, 6, 7, 8, 9] :=
  addInArray_laidOut (by decide) _ (by decide)

/-! ## `fillArray` of `pteStore.c` -/

/-- The loop over `j`. -/
def fillRow (i : Nat) : Nat → Nat → SwapLog → SwapLog
  | 0, _, log => log
  | left + 1, j, log => fillRow i left (j + 1) (PteStore.addInArray log (BitVec.ofNat 64 (i + j)))

/-- The loop over `i`. -/
def fillRows (maxSizeArray : Nat) : Nat → Nat → SwapLog → SwapLog
  | 0, _, log => log
  | left + 1, i, log => fillRows maxSizeArray left (i + 1) (fillRow i maxSizeArray 0 log)

/-- `fillArray`. -/
def fillArray (log : SwapLog) : SwapLog := fillRows log.maxSizeArray log.numberOfArrays 0 log

/-- What `fillArray` records at element `k`. -/
def rowPlusSlot (m k : Nat) : Ulong := BitVec.ofNat 64 (k / m + k % m)

theorem rowPlusSlot_pos {m y : Nat} (x : Nat) (hy : y < m) :
    rowPlusSlot m (x * m + y) = BitVec.ofNat 64 (x + y) := by
  have hpos : Chunks.pos m (x * m + y) = (x, y) := Chunks.pos_index x hy
  rw [rowPlusSlot, show (x * m + y) / m = x from congrArg Prod.fst hpos,
    show (x * m + y) % m = y from congrArg Prod.snd hpos]

theorem fillRow_eq {m i left j : Nat} (hj : j + left = m) (log : SwapLog) :
    fillRow i left j log =
      record addElement log ((List.range' (i * m + j) left).map (rowPlusSlot m)) := by
  induction left generalizing j log with
  | zero => rfl
  | succ left ih =>
      rw [fillRow, ih (by omega), List.range'_succ, List.map_cons, rowPlusSlot_pos i (by omega)]
      rfl

theorem fillRows_eq (m left i : Nat) (log : SwapLog) :
    fillRows m left i log =
      record addElement log ((List.range' (i * m) (left * m)).map (rowPlusSlot m)) := by
  induction left generalizing i log with
  | zero =>
      rw [Nat.zero_mul]
      rfl
  | succ left ih =>
      -- the rows to come start behind this one
      have hsplit : List.range' (i * m) ((left + 1) * m)
          = List.range' (i * m) m ++ List.range' ((i + 1) * m) (left * m) := by
        rw [Nat.succ_mul, Nat.add_comm (left * m), Nat.succ_mul, List.range'_append_1]
      rw [fillRows, ih, fillRow_eq (Nat.zero_add m), hsplit, List.map_append, record, record,
        record, List.foldl_append]
      rfl

/-- **`fillArray` fills every cell** with the sum of its two indices. -/
theorem fillArray_cells {n m x y : Nat} (hx : x < n) (hy : y < m) :
    (fillArray (allocateArray n m)).cells x y = some (BitVec.ofNat 64 (x + y)) := by
  have hcap : ((List.range' 0 (n * m)).map (rowPlusSlot m)).length ≤ n * m := by
    rw [List.length_map, List.length_range']
  have hholds := holds_record (n := n) (Nat.lt_of_le_of_lt (Nat.zero_le y) hy) hcap
  have hk : x * m + y < ((List.range' 0 (n * m)).map (rowPlusSlot m)).length := by
    rw [List.length_map, List.length_range']
    calc x * m + y < x * m + m := Nat.add_lt_add_left hy _
      _ = (x + 1) * m := (Nat.succ_mul x m).symm
      _ ≤ n * m := Nat.mul_le_mul_right m hx
  have hcell := hholds.cells _ hk
  rw [Chunks.pos_index x hy] at hcell
  rw [fillArray, fillRows_eq, Nat.zero_mul]
  refine hcell.trans (congrArg some ?_)
  rw [List.getElem_map, List.getElem_range', Nat.zero_add, Nat.one_mul, rowPlusSlot_pos x hy]

/-! ## The store behind the allocation -/

/-- The call after the last cell is filled rolls over to chunk `n`. -/
theorem Holds.addElement_full {log : SwapLog} {n m : Nat} {es : List Ulong}
    (h : Holds log n m es) (hn : 0 < n) (hm : 0 < m) (hfull : es.length = n * m)
    (e : Ulong) :
    log.addElement e
      = SwapLog.store { log with currentArray := n, currentIndex := 0 } n 0 e := by
  have hne : es.length ≠ 0 := by
    have := Nat.mul_pos hn hm
    omega
  have hcur := h.cursors
  rw [cursorsAfter, if_neg hne, hfull, Chunks.pos_last hm hn, Prod.mk.injEq] at hcur
  -- the guard looks at the array of the last store, not of the next one
  have hguard : log.currentArray < log.numberOfArrays := by
    rw [h.numberOfArrays]
    omega
  have hnext := h.advance hm
  rw [hfull, show n * m = n * m + 0 from rfl, Chunks.pos_index n hm] at hnext
  rw [SwapLog.addElement, if_pos hguard, hnext]
  rfl

/-- Behind the allocation the guard stops every further call. -/
theorem addElement_stopped {log : SwapLog} (h : log.numberOfArrays ≤ log.currentArray)
    (e : Ulong) : log.addElement e = log := by
  rw [addElement, if_neg (by omega)]

theorem record_stopped {log : SwapLog} (h : log.numberOfArrays ≤ log.currentArray)
    (es : List Ulong) : record addElement log es = log := by
  induction es with
  | nil => rfl
  | cons e es ih =>
      rw [record, List.foldl_cons, addElement_stopped h e]
      exact ih

/-- The intended log: every store of the calls goes to a cell of the
allocation, and once all cells are filled a call changes neither the
cursors nor a cell. -/
structure Confined (add : SwapLog → Ulong → SwapLog) (n m : Nat) (es : List Ulong) :
    Prop where
  inside : ∀ p ∈ (record add (allocateArray n m) es).stores,
    0 ≤ p.1 ∧ p.1 < n ∧ 0 ≤ p.2 ∧ p.2 < m
  full : ∀ es₁ e es₂, es = es₁ ++ e :: es₂ → n * m ≤ es₁.length →
    let log := record add (allocateArray n m) es₁
    (add log e).currentArray = log.currentArray ∧
      (add log e).currentIndex = log.currentIndex ∧ (add log e).cells = log.cells

/-- The stores of more calls than the capacity include one to chunk `n`. -/
theorem outside_mem_stores {n m : Nat} (hn : 0 < n) (hm : 0 < m) {es : List Ulong}
    (hlong : n * m < es.length) :
    ((n : Int), 0) ∈ (record addElement (allocateArray n m) es).stores := by
  obtain ⟨es₁, e, es₂, rfl, hlen⟩ : ∃ es₁ e es₂, es = es₁ ++ e :: es₂ ∧
      es₁.length = n * m :=
    ⟨es.take (n * m), es[n * m], es.drop (n * m + 1), by simp, by simp; omega⟩
  have hfull := (holds_record hm (Nat.le_of_eq hlen)).addElement_full hn hm hlen e
  have hsplit : record addElement (allocateArray n m) (es₁ ++ e :: es₂)
      = record addElement ((record addElement (allocateArray n m) es₁).addElement e) es₂ := by
    simp [record]
  have hsize := (holds_record hm (Nat.le_of_eq hlen)).numberOfArrays
  rw [hsplit, hfull, record_stopped (by simp [store, hsize])]
  simp [store]

/-- **The log is confined to its cells exactly up to its capacity.** -/
theorem confined_iff {n m : Nat} (hn : 0 < n) (hm : 0 < m) (es : List Ulong) :
    Confined addElement n m es ↔ es.length ≤ n * m := by
  constructor
  · intro h
    by_contra hlong
    have hout := h.inside _ (outside_mem_stores hn hm (Nat.lt_of_not_le hlong))
    exact absurd hout.2.1 (Int.lt_irrefl _)
  · intro hcap
    have hholds := holds_record hm hcap
    refine ⟨?_, ?_⟩
    · intro p hp
      obtain ⟨k, hk, rfl⟩ := hholds.stores p hp
      have hchunk := (Chunks.pos_fst_lt hm (n := n)).mpr (Nat.lt_of_lt_of_le hk hcap)
      have hslot := Chunks.pos_snd_lt hm k
      exact ⟨by omega, by omega, by omega, by omega⟩
    · -- within the capacity no call comes after the last cell
      intro es₁ e es₂ hes hlen
      rw [hes, List.length_append, List.length_cons] at hcap
      omega

/-- **Each copy is confined exactly up to the capacity of its arrays.** -/
theorem addInArray_confined_iff {n m : Nat} (hn : 0 < n) (hm : 0 < m) (es : List Ulong) :
    (Confined Vmscan.addInArray n m es ↔ es.length ≤ n * m) ∧
      (Confined Memory.addInArrayIN n m es ↔ es.length ≤ n * m) ∧
      (Confined PteStore.addInArray n m es ↔ es.length ≤ n * m) :=
  ⟨confined_iff hn hm es, confined_iff hn hm es, confined_iff hn hm es⟩

/-- Two chunks of three slots hold six elements; the seventh does not fit. -/
theorem addInArray_confined_six :
    Confined Vmscan.addInArray 2 3 [1, 2, 3, 4, 5, 6] ∧
      ¬ Confined Vmscan.addInArray 2 3 [1, 2, 3, 4, 5, 6, 7] :=
  ⟨(addInArray_confined_iff (by decide) (by decide) _).1.mpr (by decide),
    fun h => absurd ((addInArray_confined_iff (by decide) (by decide) _).1.mp h) (by decide)⟩

/-- One call too many for the arrays of each copy. -/
theorem not_confined_sources :
    (¬ ∀ es, Confined Vmscan.addInArray Vmscan.log.numberOfArrays Vmscan.log.maxSizeArray es) ∧
      (¬ ∀ es, Confined Memory.addInArrayIN Memory.logIN.numberOfArrays
        Memory.logIN.maxSizeArray es) ∧
      ¬ ∀ es, Confined PteStore.addInArray PteStore.log.numberOfArrays
        PteStore.log.maxSizeArray es := by
  have hover : ∀ n m : Nat, 0 < n → 0 < m → ¬ ∀ es, Confined addElement n m es := by
    intro n m hn hm hall
    have h := (confined_iff hn hm _).mp (hall (List.replicate (n * m + 1) 0))
    rw [List.length_replicate] at h
    omega
  exact ⟨hover 20 20000 (by decide) (by decide), hover 20 20000 (by decide) (by decide),
    hover 5 100 (by decide) (by decide)⟩

end SwapLog

end MegaVM
