import MegaVM.SwapLog.Recorder

/-!
# The comparison of the two logs

`compTwoArrays` of `pteExp.c`: for each cell of the first log it looks for
an equal cell in the second, and counts the hits in an `int`. Each of the
four loops is a recursion on its number of remaining turns; a `goto` is a
result of the loop it leaves. Reading a cell nobody has stored to is
`none`.

`compTwoArrays_record` gives the result on two recorded sequences: the
number of positions of the first whose entry occurs in the second, as a
32-bit signed integer.
-/

namespace MegaVM

/-- How the loops over the second array end. -/
inductive Search
  /-- The loop has no turn left. -/
  | on
  /-- `goto nextIter`, after `similarity++` when it is a hit. -/
  | nextIter (hit : Bool)
  deriving DecidableEq, Repr

section Loops
variable (maxElements : Nat) (logIN log : SwapLog) (i j : Int)

/-- The loop over `y`. -/
def compY (x : Int) : Nat → Int → Option Search
  | 0, _ => some .on
  | left + 1, y =>
      if x = log.currentArray ∧ y > log.currentIndex then some (.nextIter false)
      else
        match logIN.cells i j, log.cells x y with
        | some a, some b => if a = b then some (.nextIter true) else compY x left (y + 1)
        -- a cell that nothing has been stored to is read
        | _, _ => none

/-- The loop over `x`. -/
def compX : Nat → Int → Option Search
  | 0, _ => some .on
  | left + 1, x =>
      match compY logIN log i j x maxElements 0 with
      | some .on => compX left (x + 1)
      | r => r

/-- The loop over `j`: whether it was left by `goto finish`, and the new
`similarity`. -/
def compJ : Nat → Int → BitVec 32 → Option (Bool × BitVec 32)
  | 0, _, similarity => some (false, similarity)
  | left + 1, j, similarity =>
      if i = logIN.currentArray ∧ j > logIN.currentIndex then some (true, similarity)
      else
        match compX maxElements logIN log i j (log.currentArray + 1).toNat 0 with
        | some r =>
            compJ left (j + 1) (if r = .nextIter true then similarity + 1 else similarity)
        | none => none

/-- The loop over `i`. -/
def compI : Nat → Int → BitVec 32 → Option (BitVec 32)
  | 0, _, similarity => some similarity
  | left + 1, i, similarity =>
      match compJ maxElements logIN log i maxElements 0 similarity with
      | some (true, similarity) => some similarity
      | some (false, similarity) => compI left (i + 1) similarity
      | none => none

/-- `compTwoArrays(myPtes_IN, myPtes_OUT)`. -/
def compTwoArrays : Option Int :=
  (compI maxElements logIN log (logIN.currentArray + 1).toNat 0 0).map BitVec.toInt

end Loops

namespace SwapLog

/-! ## The guards and the cells the loops meet -/

section
variable {log : SwapLog} {n m : Nat} {es : List Ulong}

/-- The cursors leave no chunk out. -/
theorem Holds.length_le (h : Holds log n m es) (hm : 0 < m) :
    0 ≤ log.currentArray ∧ es.length ≤ (log.currentArray + 1).toNat * m := by
  have hcur := h.cursors
  by_cases hes : es.length = 0
  · rw [cursorsAfter, if_pos hes, Prod.mk.injEq] at hcur
    rw [hcur.1, hes]
    simp
  · rw [cursorsAfter, if_neg hes, Prod.mk.injEq] at hcur
    have hidx := Chunks.index_pos m (es.length - 1)
    have hlt := Chunks.pos_snd_lt hm (es.length - 1)
    have hcast : (log.currentArray + 1).toNat = (Chunks.pos m (es.length - 1)).1 + 1 := by
      omega
    rw [hcast, Nat.succ_mul]
    omega

/-- The guard of a loop holds from the end of the sequence on. -/
theorem Holds.guard_iff (h : Holds log n m es) {x y : Nat} (hy : y < m)
    (hx : (x : Int) ≤ log.currentArray) :
    ((x : Int) = log.currentArray ∧ (y : Int) > log.currentIndex) ↔ es.length ≤ x * m + y := by
  have hcur := h.cursors
  by_cases hes : es.length = 0
  · rw [cursorsAfter, if_pos hes, Prod.mk.injEq] at hcur
    omega
  · rw [cursorsAfter, if_neg hes, Prod.mk.injEq] at hcur
    -- the cursors are at the last element: behind them is behind the sequence
    have hafter := Chunks.after_iff hy (by omega : x ≤ (Chunks.pos m (es.length - 1)).1)
    constructor
    · intro hg
      have := hafter.mp ⟨by omega, by omega⟩
      omega
    · intro hlen
      have := hafter.mpr (by omega)
      omega

theorem Holds.cell (h : Holds log n m es) {x y : Nat} (hy : y < m)
    (hk : x * m + y < es.length) : log.cells x y = some es[x * m + y] := by
  have hcell := h.cells _ hk
  rwa [Chunks.pos_index x hy] at hcell

end

/-! ## The loops over the second array -/

section
variable {logIN log : SwapLog} {n m : Nat} {es : List Ulong} {i j : Int} {a : Ulong}

theorem compY_eq (hlog : Holds log n m es) (ha : logIN.cells i j = some a) {x : Nat}
    (hx : (x : Int) ≤ log.currentArray) {left y : Nat} (hy : y + left = m)
    (hk : x * m + y ≤ es.length) :
    compY logIN log i j x left y = some
      (if a ∈ (es.drop (x * m + y)).take left then .nextIter true
        else if es.length < x * m + y + left then .nextIter false else .on) := by
  induction left generalizing y with
  | zero =>
      rw [compY, List.take_zero, if_neg List.not_mem_nil, if_neg (by omega)]
  | succ left ih =>
      rw [compY]
      have hguard := hlog.guard_iff (by omega : y < m) hx
      -- the guard ends the row with the sequence, so no unrecorded cell is read
      by_cases hend : es.length ≤ x * m + y
      · rw [if_pos (hguard.mpr hend), List.drop_eq_nil_of_le hend, List.take_nil,
          if_neg List.not_mem_nil, if_pos (by omega)]
      · have hlt : x * m + y < es.length := by omega
        rw [if_neg (fun hg => hend (hguard.mp hg)), ha, hlog.cell (by omega) hlt,
          List.drop_eq_getElem_cons hlt, List.take_succ_cons]
        by_cases heq : a = es[x * m + y]
        · simp [heq]
        · have hrec := ih (by omega : y + 1 + left = m) (by omega)
          rw [Int.natCast_succ] at hrec
          have hcount : x * m + y + (left + 1) = x * m + (y + 1) + left := by omega
          simp only [List.mem_cons, heq, false_or, if_false, hcount]
          rw [hrec]
          rfl

theorem compX_eq (hlog : Holds log n m es) (hm : 0 < m) (ha : logIN.cells i j = some a)
    {left x : Nat} (hx : x + left = (log.currentArray + 1).toNat) (hk : x * m ≤ es.length) :
    ∃ r, compX m logIN log i j left x = some r ∧
      (r = .nextIter true ↔ a ∈ es.drop (x * m)) := by
  obtain ⟨hcur, hlen⟩ := hlog.length_le hm
  induction left generalizing x with
  | zero =>
      have hnil : es.drop (x * m) = [] := by
        rw [Nat.add_zero] at hx
        exact List.drop_eq_nil_of_le (hx ▸ hlen)
      exact ⟨.on, rfl, by simp [hnil]⟩
  | succ left ih =>
      have hy := compY_eq hlog ha (by omega : (x : Int) ≤ log.currentArray)
        (Nat.zero_add m) hk
      rw [Nat.add_zero] at hy
      rw [compX, Int.natCast_zero.symm, hy]
      -- a row is left by a hit, by the end of the sequence, or by its own end
      by_cases hhit : a ∈ (es.drop (x * m)).take m
      · rw [if_pos hhit]
        exact ⟨.nextIter true, rfl, by simp [List.mem_of_mem_take hhit]⟩
      · rw [if_neg hhit]
        by_cases hend : es.length < x * m + m
        · rw [if_pos hend]
          have hall : (es.drop (x * m)).take m = es.drop (x * m) :=
            List.take_of_length_le (by rw [List.length_drop]; omega)
          rw [hall] at hhit
          exact ⟨.nextIter false, rfl, by simp [hhit]⟩
        · -- no hit in a whole chunk: the search goes on in the next
          rw [if_neg hend]
          have hnext : (x + 1) * m = x * m + m := Nat.succ_mul x m
          obtain ⟨r, hr, hiff⟩ := ih (by omega : x + 1 + left = _) (by omega)
          refine ⟨r, by exact_mod_cast hr, ?_⟩
          rw [hiff, hnext, ← List.take_append_drop m (es.drop (x * m)), List.mem_append,
            List.drop_drop]
          simp [hhit]

end

/-! ## The loops over the first array -/

section
variable {logIN log : SwapLog} {n m : Nat} {esIN es : List Ulong}

/-- The entries of a list that occur in `es`. -/
def hits (es l : List Ulong) : Nat := l.countP (· ∈ es)

theorem compJ_eq (hin : Holds logIN n m esIN) (hlog : Holds log n m es) (hm : 0 < m)
    {i : Nat} (hi : (i : Int) ≤ logIN.currentArray) {left j : Nat} (hj : j + left = m)
    (hk : i * m + j ≤ esIN.length) (similarity : BitVec 32) :
    compJ m logIN log i left j similarity = some
      (decide (esIN.length < i * m + j + left),
        similarity + BitVec.ofNat 32 (hits es ((esIN.drop (i * m + j)).take left))) := by
  induction left generalizing j similarity with
  | zero => simp [compJ, hits]; omega
  | succ left ih =>
      rw [compJ]
      have hguard := hin.guard_iff (by omega : j < m) hi
      by_cases hend : esIN.length ≤ i * m + j
      · rw [if_pos (hguard.mpr hend), List.drop_eq_nil_of_le hend]
        simp [hits]
        omega
      · have hlt : i * m + j < esIN.length := by omega
        obtain ⟨r, hr, hiff⟩ := compX_eq hlog hm (hin.cell (by omega) hlt)
          (Nat.zero_add (log.currentArray + 1).toNat) (by omega)
        rw [Nat.zero_mul, List.drop_zero] at hiff
        have hrec := ih (by omega : j + 1 + left = m) (by omega)
          (if r = .nextIter true then similarity + 1 else similarity)
        rw [Int.natCast_succ] at hrec
        have hcount : i * m + j + (left + 1) = i * m + (j + 1) + left := by omega
        rw [if_neg (fun hg => hend (hguard.mp hg)), Int.natCast_zero.symm, hr]
        dsimp only
        rw [hrec, hcount, List.drop_eq_getElem_cons hlt, List.take_succ_cons, hits, hits,
          List.countP_cons]
        by_cases hmem : esIN[i * m + j] ∈ es
        -- a hit is counted once, however often the entry occurs
        · rw [if_pos (hiff.mpr hmem), if_pos (by simpa using hmem), BitVec.ofNat_add,
            BitVec.add_assoc, BitVec.add_comm 1]
          rfl
        · rw [if_neg (fun hr => hmem (hiff.mp hr)), if_neg (by simpa using hmem), Nat.add_zero]
          rfl

theorem compI_eq (hin : Holds logIN n m esIN) (hlog : Holds log n m es) (hm : 0 < m)
    {left i : Nat} (hi : i + left = (logIN.currentArray + 1).toNat)
    (hk : i * m ≤ esIN.length) (similarity : BitVec 32) :
    compI m logIN log left i similarity
      = some (similarity + BitVec.ofNat 32 (hits es (esIN.drop (i * m)))) := by
  obtain ⟨hcur, hlen⟩ := hin.length_le hm
  induction left generalizing i similarity with
  | zero =>
      have hnil : esIN.drop (i * m) = [] := by
        rw [Nat.add_zero] at hi
        exact List.drop_eq_nil_of_le (hi ▸ hlen)
      simp [compI, hits, hnil]
  | succ left ih =>
      have hj := compJ_eq hin hlog hm (by omega : (i : Int) ≤ logIN.currentArray)
        (Nat.zero_add m) hk similarity
      rw [Nat.add_zero] at hj
      rw [compI, Int.natCast_zero.symm, hj]
      -- `goto finish` in the chunk in which the sequence ends
      by_cases hend : esIN.length < i * m + m
      · have hall : (esIN.drop (i * m)).take m = esIN.drop (i * m) :=
          List.take_of_length_le (by rw [List.length_drop]; omega)
        simp [hend, hall]
      · have hnext : (i + 1) * m = i * m + m := Nat.succ_mul i m
        have hrec := ih (by omega : i + 1 + left = _) (by omega)
          (similarity + BitVec.ofNat 32 (hits es ((esIN.drop (i * m)).take m)))
        rw [Int.natCast_succ] at hrec
        have hsplit : hits es (esIN.drop (i * m))
            = hits es ((esIN.drop (i * m)).take m) + hits es (esIN.drop (i * m + m)) := by
          rw [hits, hits, hits, ← List.drop_drop, ← List.countP_append, List.take_append_drop]
        simp only [hend, decide_false, hrec, hnext, hsplit, BitVec.ofNat_add, BitVec.add_assoc]

/-- The comparison of two logs that hold their sequences. -/
theorem compTwoArrays_eq (hin : Holds logIN n m esIN) (hlog : Holds log n m es) (hm : 0 < m) :
    compTwoArrays m logIN log = some (BitVec.ofNat 32 (hits es esIN)).toInt := by
  have h := compI_eq hin hlog hm (Nat.zero_add _) (by omega) 0
  rw [Nat.zero_mul, List.drop_zero, Int.natCast_zero] at h
  rw [compTwoArrays, h]
  simp

theorem toInt_ofNat_eq_iff (k : Nat) : (BitVec.ofNat 32 k).toInt = k ↔ k < 2 ^ 31 := by
  have hlt : (BitVec.ofNat 32 k).toInt < 2 ^ 31 := BitVec.toInt_lt
  constructor
  · omega
  · intro hk
    rw [BitVec.toInt_eq_toNat_of_lt (by rw [BitVec.toNat_ofNat]; omega), BitVec.toNat_ofNat]
    omega

/-- **The comparison of two recorded sequences** reads recorded cells
only and returns the number of positions of the first whose entry occurs
in the second, as an `int`: exactly when that number fits one. -/
theorem compTwoArrays_record (hm : 0 < m) (hin : esIN.length ≤ n * m)
    (hout : es.length ≤ n * m) :
    ∃ r, compTwoArrays m (record Memory.addInArrayIN (allocateArray n m) esIN)
        (record Vmscan.addInArray (allocateArray n m) es) = some r ∧
      r = (BitVec.ofNat 32 (hits es esIN)).toInt ∧
      (r = hits es esIN ↔ hits es esIN < 2 ^ 31) :=
  ⟨_, compTwoArrays_eq (holds_record hm hin) (holds_record hm hout) hm, rfl,
    toInt_ofNat_eq_iff _⟩

end

/-- A partial chunk, duplicates and a miss. -/
theorem compTwoArrays_three :
    ∃ r, compTwoArrays 2 (record Memory.addInArrayIN (allocateArray 3 2) [7, 8, 7, 9, 4])
        (record Vmscan.addInArray (allocateArray 3 2) [5, 9, 7]) = some r ∧ r = 3 := by
  obtain ⟨r, hr, -, hiff⟩ := compTwoArrays_record (by decide : 0 < 2)
    (by decide : [(7 : Ulong), 8, 7, 9, 4].length ≤ 3 * 2)
    (by decide : [(5 : Ulong), 9, 7].length ≤ 3 * 2)
  exact ⟨r, hr, hiff.mpr (by decide)⟩

/-- A log of `2 ^ 31` equal entries against a log of that entry. -/
theorem not_compTwoArrays_exact :
    ¬ ∀ (n m : Nat) (esIN es : List Ulong), 0 < n → 0 < m → esIN.length ≤ n * m →
      es.length ≤ n * m →
      compTwoArrays m (record Memory.addInArrayIN (allocateArray n m) esIN)
        (record Vmscan.addInArray (allocateArray n m) es) = some (hits es esIN : Int) := by
  intro hall
  have hlen : (List.replicate (2 ^ 31) (0 : Ulong)).length ≤ 2 ^ 16 * 2 ^ 15 := by
    rw [List.length_replicate, ← Nat.pow_add]
  have hone : [(0 : Ulong)].length ≤ 2 ^ 16 * 2 ^ 15 := by decide
  have hexact := hall (2 ^ 16) (2 ^ 15) _ _ (by decide) (by decide) hlen hone
  have hcode := compTwoArrays_eq (holds_record (by decide) hlen)
    (holds_record (by decide) hone) (by decide)
  -- `similarity` would have to be `2 ^ 31`
  have hfits := (toInt_ofNat_eq_iff _).mp (Option.some.inj (hcode.symm.trans hexact))
  rw [hits, List.countP_replicate] at hfits
  simp at hfits

end SwapLog

end MegaVM
