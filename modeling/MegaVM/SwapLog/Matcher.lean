import MegaVM.SwapLog.Compare
import MegaVM.SwapLog.Events

/-!
# The page-content matcher

`init_module` of `pteExp.c`: the comparison of the two logs, and then the
search for a page that went out and came back in unchanged. The search is
three loops that share `decision`, each a recursion on its number of
remaining turns; the result of the loop over `k` says whether it was left
by `goto tag1`.

The loop over `k` has 1000 turns, the size of the other store, and nothing
sets `decision` back to 1 between two of its turns. `comparesFilled_iff`
says what is left of the search.
-/

namespace MegaVM

/-- What the module prints. -/
inductive Line
  /-- The result of `compTwoArrays`; `none` when it has read a cell nobody
  has stored to. -/
  | sameElements (x : Option Int)
  | cursorsIN (currentArray currentIndex : Int)
  | cursorsOUT (currentArray currentIndex : Int)
  | matchingEntries (out inn : Ulong)
  | pageContentsMatch
  | theEnd
  deriving DecidableEq, Repr

/-- The module between two statements. -/
structure MatchRun where
  decision : Bool
  output : List Line
  /-- The indices at which the two stores have been read; nothing reads
  these. -/
  inspectedIN : List Nat
  inspectedOUT : List Nat

namespace MatchRun

def print (s : MatchRun) (line : Line) : MatchRun := { s with output := s.output ++ [line] }

/-- `pageContentStore_OUT[k]` and `pageContentStore_IN[i]` are read. -/
def inspect (s : MatchRun) (i k : Nat) : MatchRun :=
  { s with inspectedIN := i :: s.inspectedIN, inspectedOUT := k :: s.inspectedOUT }

end MatchRun

section Loops
variable (storeOUT storeIN : Nat → PageRecord)

/-- The loop over `j`: `decision` behind it. -/
def matchContent (out inn : Bytes) : Nat → Nat → Bool → Bool
  | 0, _, decision => decision
  | left + 1, j, decision =>
      matchContent out inn left (j + 1) (if out j ≠ inn j then false else decision)

/-- One turn of the loop over `k`: whether it ends with `goto tag1`. -/
def matchRecord (i k : Nat) (s : MatchRun) : Bool × MatchRun :=
  let s := s.inspect i k
  if (storeOUT k).value = (storeIN i).value then
    let s := s.print (.matchingEntries (storeOUT k).value (storeIN i).value)
    let decision :=
      -- `decision` is not set back to 1 for the next record
      matchContent (storeOUT k).content (storeIN i).content PageStore.pageSize 0 s.decision
    let s := { s with decision := decision }
    if decision then (true, s.print .pageContentsMatch) else (false, s)
  else (false, s)

/-- The loop over `k`. -/
def matchOUT (i : Nat) : Nat → Nat → MatchRun → Bool × MatchRun
  | 0, _, s => (false, s)
  | left + 1, k, s =>
      match matchRecord storeOUT storeIN i k s with
      | (true, s) => (true, s)
      | (false, s) => matchOUT i left (k + 1) s

/-- The loop over `i`. -/
def matchIN : Nat → Nat → MatchRun → MatchRun
  | 0, _, s => s
  | left + 1, i, s =>
      match matchOUT storeOUT storeIN i 1000 0 { s with decision := true } with
      | (true, s) => s
      | (false, s) => matchIN left (i + 1) s

end Loops

/-- The first lines, when both logs have been allocated. -/
def printLogs (m : Memory) (v : Reclaim) : List Line :=
  if !m.firstTime && !v.firstTime then
    [.sameElements (compTwoArrays 20000 m.log v.log),
      .cursorsIN m.log.currentArray m.log.currentIndex,
      .cursorsOUT v.log.currentArray v.log.currentIndex]
  else []

/-- `init_module`. -/
def initModule (m : Memory) (v : Reclaim) : MatchRun :=
  (matchIN v.store.records m.store.records m.store.pageFilled 0
    ⟨true, printLogs m v, [], []⟩).print .theEnd

/-! ## What the module is for -/

/-- The 4096 bytes of the two pages are the same. -/
def SameContent (a b : PageRecord) : Prop :=
  ∀ j < PageStore.pageSize, a.content j = b.content j

/-- The module reads filled records only, and reports a match when there
is one. -/
structure ComparesFilled (m : Memory) (v : Reclaim) : Prop where
  inspectedIN : ∀ i ∈ (initModule m v).inspectedIN, i < m.store.pageFilled
  inspectedOUT : ∀ k ∈ (initModule m v).inspectedOUT, k < v.store.pageFilled
  report : .pageContentsMatch ∈ (initModule m v).output ↔
    ∃ i < m.store.pageFilled, ∃ k < v.store.pageFilled,
      (v.store.records k).value = (m.store.records i).value ∧
        SameContent (v.store.records k) (m.store.records i)

/-- From `start` on, `k` is the first record with the value of `r`, and it
has its content as well. -/
structure FirstHit (storeOUT : Nat → PageRecord) (r : PageRecord) (start k : Nat) : Prop where
  start_le : start ≤ k
  value : (storeOUT k).value = r.value
  content : SameContent (storeOUT k) r
  first : ∀ x, start ≤ x → x < k → (storeOUT x).value ≠ r.value

/-! ## The loops -/

section
variable {storeOUT storeIN : Nat → PageRecord} {i : Nat}

theorem matchContent_iff {out inn : Bytes} {left j : Nat} {decision : Bool} :
    matchContent out inn left j decision = true ↔
      decision = true ∧ ∀ x, j ≤ x → x < j + left → out x = inn x := by
  induction left generalizing j decision with
  | zero =>
      rw [matchContent]
      exact ⟨fun h => ⟨h, fun x hx hlt => by omega⟩, fun h => h.1⟩
  | succ left ih =>
      rw [matchContent, ih]
      by_cases heq : out j = inn j
      · rw [if_neg (not_not.mpr heq)]
        refine and_congr_right fun _ => ⟨fun h x hx hlt => ?_, fun h x hx hlt => ?_⟩
        · rcases Nat.eq_or_lt_of_le hx with rfl | hx
          · exact heq
          · exact h x hx (by omega)
        · exact h x (by omega) (by omega)
      · rw [if_pos heq]
        exact ⟨fun h => absurd h.1 Bool.false_ne_true,
          fun h => absurd (h.2 j (Nat.le_refl j) (by omega)) heq⟩

/-- The loop over a whole page. -/
theorem matchContent_page {a b : PageRecord} {decision : Bool} :
    matchContent a.content b.content PageStore.pageSize 0 decision = true ↔
      decision = true ∧ SameContent a b := by
  rw [matchContent_iff, Nat.zero_add]
  exact and_congr_right fun _ => ⟨fun h j hj => h j (Nat.zero_le j) hj, fun h j _ hj => h j hj⟩

/-- What one turn of the loop over `k` does: it is the last one exactly
when the record matches and `decision` is still 1, and a record with the
value whose turn is not the last leaves 0 behind. -/
structure RecordTurn (storeOUT storeIN : Nat → PageRecord) (i k : Nat) (s : MatchRun)
    (r : Bool × MatchRun) : Prop where
  last : r.1 = true ↔ s.decision = true ∧ (storeOUT k).value = (storeIN i).value ∧
    SameContent (storeOUT k) (storeIN i)
  report : r.1 = true → .pageContentsMatch ∈ r.2.output
  decision : r.1 = false →
    r.2.decision = (s.decision && decide ((storeOUT k).value ≠ (storeIN i).value))
  inspectedIN : r.2.inspectedIN = i :: s.inspectedIN
  inspectedOUT : r.2.inspectedOUT = k :: s.inspectedOUT

theorem matchRecord_turn (i k : Nat) (s : MatchRun) :
    RecordTurn storeOUT storeIN i k s (matchRecord storeOUT storeIN i k s) := by
  by_cases hvalue : (storeOUT k).value = (storeIN i).value
  · have hiff : matchContent (storeOUT k).content (storeIN i).content PageStore.pageSize 0
        s.decision = true ↔ s.decision = true ∧ SameContent (storeOUT k) (storeIN i) :=
      matchContent_page
    -- the record has the value: what the loop over its content leaves in `decision`
    cases hdec : matchContent (storeOUT k).content (storeIN i).content PageStore.pageSize 0
        s.decision with
    | true =>
        have hr : matchRecord storeOUT storeIN i k s = (true, { (s.inspect i k).print
            (.matchingEntries (storeOUT k).value (storeIN i).value) with
              decision := true }.print .pageContentsMatch) := by
          simp only [matchRecord, if_pos hvalue, MatchRun.print, MatchRun.inspect, hdec, if_true]
        rw [hdec] at hiff
        obtain ⟨hs, hcontent⟩ := hiff.mp rfl
        rw [hr]
        exact ⟨⟨fun _ => ⟨hs, hvalue, hcontent⟩, fun _ => rfl⟩,
          fun _ => List.mem_append_right _ (List.mem_singleton.mpr rfl), nofun, rfl, rfl⟩
    | false =>
        have hr : matchRecord storeOUT storeIN i k s = (false, { (s.inspect i k).print
            (.matchingEntries (storeOUT k).value (storeIN i).value) with decision := false }) := by
          simp only [matchRecord, if_pos hvalue, MatchRun.print, MatchRun.inspect, hdec,
            Bool.false_eq_true, if_false]
        rw [hdec] at hiff
        rw [hr]
        refine ⟨⟨nofun, fun h => hiff.mpr ⟨h.1, h.2.2⟩⟩, nofun, fun _ => ?_, rfl, rfl⟩
        rw [decide_eq_false (not_not.mpr hvalue), Bool.and_false]
  · have hr : matchRecord storeOUT storeIN i k s = (false, s.inspect i k) := by
      simp only [matchRecord, if_neg hvalue]
    rw [hr]
    refine ⟨⟨nofun, fun h => absurd h.2.1 hvalue⟩, nofun, fun _ => ?_, rfl, rfl⟩
    rw [decide_eq_true hvalue, Bool.and_true]
    rfl

/-- What is on record stays there. -/
theorem matchOUT_mono {left k : Nat} {s : MatchRun} {x : Nat} (hx : x ∈ s.inspectedOUT) :
    x ∈ (matchOUT storeOUT storeIN i left k s).2.inspectedOUT := by
  induction left generalizing k s with
  | zero => exact hx
  | succ left ih =>
      have hstep : x ∈ (matchRecord storeOUT storeIN i k s).2.inspectedOUT := by
        rw [(matchRecord_turn i k s).inspectedOUT]
        exact List.mem_cons_of_mem k hx
      rw [matchOUT]
      split <;> rename_i heq <;> rw [heq] at hstep
      · exact hstep
      · exact ih hstep

/-- One turn of the loop over `i`. -/
theorem matchIN_succ (left i : Nat) (s : MatchRun) :
    matchIN storeOUT storeIN (left + 1) i s =
      let r := matchOUT storeOUT storeIN i 1000 0 { s with decision := true }
      if r.1 then r.2 else matchIN storeOUT storeIN left (i + 1) r.2 := by
  rw [matchIN]
  generalize matchOUT storeOUT storeIN i 1000 0 { s with decision := true } = r
  obtain ⟨early, s'⟩ := r
  cases early <;> rfl

theorem matchIN_mono {left i : Nat} {s : MatchRun} {x : Nat} (hx : x ∈ s.inspectedOUT) :
    x ∈ (matchIN storeOUT storeIN left i s).inspectedOUT := by
  induction left generalizing i s with
  | zero => exact hx
  | succ left ih =>
      have hout : x ∈ (matchOUT storeOUT storeIN i 1000 0
          { s with decision := true }).2.inspectedOUT := matchOUT_mono hx
      rw [matchIN_succ]
      dsimp only
      split
      · exact hout
      · exact ih hout

/-- A loop that is not left early reads every record. -/
theorem matchOUT_false {left k : Nat} {s : MatchRun}
    (h : (matchOUT storeOUT storeIN i left k s).1 = false) {x : Nat} (hx : k ≤ x)
    (hlt : x < k + left) : x ∈ (matchOUT storeOUT storeIN i left k s).2.inspectedOUT := by
  induction left generalizing k s with
  | zero => omega
  | succ left ih =>
      have hturn : RecordTurn storeOUT storeIN i k s _ := matchRecord_turn i k s
      rw [matchOUT] at h ⊢
      cases hrecord : matchRecord storeOUT storeIN i k s with
      | mk last s' =>
          rw [hrecord] at h hturn
          cases last with
          | true => exact absurd h.symm Bool.false_ne_true
          | false =>
              -- the record of this turn, or one of a later turn
              rcases Nat.eq_or_lt_of_le hx with rfl | hx
              · exact matchOUT_mono (hturn.inspectedOUT ▸ List.mem_cons_self)
              · exact ih h hx (by omega)

/-- Once a content has differed, the loop is not left early. -/
theorem matchOUT_undecided {left k : Nat} {s : MatchRun} (h : s.decision = false) :
    (matchOUT storeOUT storeIN i left k s).1 = false := by
  induction left generalizing k s with
  | zero => rfl
  | succ left ih =>
      have hturn : RecordTurn storeOUT storeIN i k s _ := matchRecord_turn i k s
      rw [matchOUT]
      cases hrecord : matchRecord storeOUT storeIN i k s with
      | mk last s' =>
          rw [hrecord] at hturn
          cases last with
          -- a turn needs `decision` to be the last one
          | true => exact absurd (h.symm.trans (hturn.last.mp rfl).1) Bool.false_ne_true
          | false =>
              refine ih ?_
              rw [hturn.decision rfl, h, Bool.false_and]

/-- A loop that is left early has read the first record with the value,
and its content. -/
theorem matchOUT_true {left k : Nat} {s : MatchRun}
    (h : (matchOUT storeOUT storeIN i left k s).1 = true) :
    ∃ x, FirstHit storeOUT (storeIN i) k x ∧
      x ∈ (matchOUT storeOUT storeIN i left k s).2.inspectedOUT := by
  induction left generalizing k s with
  | zero => exact absurd h Bool.false_ne_true
  | succ left ih =>
      have hturn : RecordTurn storeOUT storeIN i k s _ := matchRecord_turn i k s
      rw [matchOUT] at h ⊢
      cases hrecord : matchRecord storeOUT storeIN i k s with
      | mk last s' =>
          rw [hrecord] at h hturn
          cases last with
          | true =>
              obtain ⟨-, hvalue, hcontent⟩ := hturn.last.mp rfl
              exact ⟨k, ⟨Nat.le_refl k, hvalue, hcontent, fun y hy hlt => by omega⟩,
                hturn.inspectedOUT ▸ List.mem_cons_self⟩
          | false =>
              -- a record with the value would have ended the search
              have hvalue : (storeOUT k).value ≠ (storeIN i).value := by
                intro heq
                have hdec := hturn.decision rfl
                rw [decide_eq_false (not_not.mpr heq), Bool.and_false] at hdec
                exact absurd ((matchOUT_undecided hdec).symm.trans h) Bool.false_ne_true
              obtain ⟨x, hhit, hmem⟩ := ih h
              refine ⟨x, ⟨Nat.le_of_succ_le hhit.start_le, hhit.value, hhit.content, ?_⟩, hmem⟩
              intro y hy hlt
              rcases Nat.eq_or_lt_of_le hy with rfl | hy
              · exact hvalue
              · exact hhit.first y hy hlt

/-- A first hit ends the loop: nothing behind it is read. -/
theorem FirstHit.matchOUT {left k x : Nat} {s : MatchRun}
    (h : FirstHit storeOUT (storeIN i) k x) (hlt : x < k + left) (hdecision : s.decision = true) :
    (matchOUT storeOUT storeIN i left k s).1 = true ∧
      .pageContentsMatch ∈ (matchOUT storeOUT storeIN i left k s).2.output ∧
      (∀ y ∈ (matchOUT storeOUT storeIN i left k s).2.inspectedOUT, y ∈ s.inspectedOUT ∨ y ≤ x) ∧
      ∀ y ∈ (matchOUT storeOUT storeIN i left k s).2.inspectedIN, y ∈ s.inspectedIN ∨ y = i := by
  induction left generalizing k s with
  | zero =>
      have := h.start_le
      omega
  | succ left ih =>
      have hturn : RecordTurn storeOUT storeIN i k s _ := matchRecord_turn i k s
      rw [MegaVM.matchOUT]
      cases hrecord : matchRecord storeOUT storeIN i k s with
      | mk last s' =>
          rw [hrecord] at hturn
          obtain ⟨hlast, hreport, hdec, hinsIN, hinsOUT⟩ := hturn
          dsimp only at hlast hreport hdec hinsIN hinsOUT
          cases last with
          | true =>
              refine ⟨rfl, hreport rfl, fun y hy => ?_, fun y hy => ?_⟩
              · rcases List.mem_cons.mp (hinsOUT ▸ hy) with rfl | hy
                · exact Or.inr h.start_le
                · exact Or.inl hy
              · exact (List.mem_cons.mp (hinsIN ▸ hy)).symm
          | false =>
              -- the turn on the hit would be the last one
              have hk : k < x := by
                rcases Nat.eq_or_lt_of_le h.start_le with rfl | hk
                · exact absurd (hlast.mpr ⟨hdecision, h.value, h.content⟩) Bool.false_ne_true
                · exact hk
              have hnext : FirstHit storeOUT (storeIN i) (k + 1) x :=
                ⟨hk, h.value, h.content, fun y hy => h.first y (Nat.le_of_succ_le hy)⟩
              have hs' : s'.decision = true := by
                rw [hdec rfl, hdecision, decide_eq_true (h.first k (Nat.le_refl k) hk),
                  Bool.and_true]
              obtain ⟨hleft, hout, hleOUT, heqIN⟩ := ih hnext (by omega) hs'
              refine ⟨hleft, hout, fun y hy => ?_, fun y hy => ?_⟩
              · rcases hleOUT y hy with hmem | hle
                · rcases List.mem_cons.mp (hinsOUT ▸ hmem) with rfl | hmem
                  · exact Or.inr (Nat.le_of_lt hk)
                  · exact Or.inl hmem
                · exact Or.inr hle
              · rcases heqIN y hy with hmem | heq
                · exact (List.mem_cons.mp (hinsIN ▸ hmem)).symm
                · exact Or.inr heq

end

/-! ## When the matcher is right -/

theorem printLogs_noMatch (m : Memory) (v : Reclaim) : .pageContentsMatch ∉ printLogs m v := by
  unfold printLogs
  split <;> simp

section
variable {m : Memory} {v : Reclaim}

/-- Nothing has been filled: the module only prints. -/
theorem comparesFilled_of_empty (hIN : m.store.pageFilled = 0) : ComparesFilled m v := by
  have hrun : initModule m v = ⟨true, printLogs m v ++ [.theEnd], [], []⟩ := by
    rw [initModule, hIN]
    rfl
  refine ⟨?_, ?_, ?_⟩ <;> rw [hrun]
  · exact fun i hi => absurd hi List.not_mem_nil
  · exact fun k hk => absurd hk List.not_mem_nil
  · rw [hIN]
    constructor
    · intro hmem
      rcases List.mem_append.mp hmem with hmem | hmem
      · exact absurd hmem (printLogs_noMatch m v)
      · exact absurd hmem (by decide)
    · rintro ⟨i, hi, -⟩
      omega

/-- The state in which the loops begin. -/
abbrev MatchRun.start (m : Memory) (v : Reclaim) : MatchRun := ⟨true, printLogs m v, [], []⟩

theorem initModule_succ {left : Nat} (hIN : m.store.pageFilled = left + 1) :
    initModule m v =
      let r := matchOUT v.store.records m.store.records 0 1000 0 (.start m v)
      (if r.1 then r.2
        else matchIN v.store.records m.store.records left 1 r.2).print .theEnd := by
  rw [initModule, hIN, matchIN_succ]

/-- A filled hit for the first record: the search ends there. -/
theorem comparesFilled_of_hit {k : Nat} (hIN : 0 < m.store.pageFilled)
    (hk : k < v.store.pageFilled) (hlt : k < 1000)
    (hhit : FirstHit v.store.records (m.store.records 0) 0 k) : ComparesFilled m v := by
  obtain ⟨left, hleft⟩ := Nat.exists_eq_succ_of_ne_zero (Nat.ne_of_gt hIN)
  have hloop := hhit.matchOUT (s := .start m v) (Nat.zero_add 1000 ▸ hlt) rfl
  have hrun := initModule_succ (v := v) hleft
  generalize matchOUT v.store.records m.store.records 0 1000 0 (.start m v) = r at hloop hrun
  obtain ⟨hearly, hout, hleOUT, heqIN⟩ := hloop
  dsimp only at hrun
  rw [if_pos hearly] at hrun
  refine ⟨?_, ?_, ?_⟩ <;> rw [hrun]
  · intro i hi
    rcases heqIN i hi with hmem | rfl
    · exact absurd hmem List.not_mem_nil
    · exact hIN
  · intro x hx
    rcases hleOUT x hx with hmem | hle
    · exact absurd hmem List.not_mem_nil
    · exact Nat.lt_of_le_of_lt hle hk
  · refine ⟨fun _ => ⟨0, hIN, k, hk, hhit.value, hhit.content⟩, fun _ => ?_⟩
    exact List.mem_append_left _ hout

/-- A module that reads filled records only has met its hit at once: a
first turn without one reads all 1000 records. -/
theorem hit_of_inspected (hIN : 0 < m.store.pageFilled) (hOUT : v.store.pageFilled < 1000)
    (h : ∀ k ∈ (initModule m v).inspectedOUT, k < v.store.pageFilled) :
    ∃ k < v.store.pageFilled, FirstHit v.store.records (m.store.records 0) 0 k := by
  obtain ⟨left, hleft⟩ := Nat.exists_eq_succ_of_ne_zero (Nat.ne_of_gt hIN)
  rw [initModule_succ hleft] at h
  generalize hr : matchOUT v.store.records m.store.records 0 1000 0 (.start m v) = r at h
  dsimp only at h
  cases hearly : r.1 with
  | true =>
      rw [if_pos hearly] at h
      rw [← hr] at hearly
      obtain ⟨x, hx, hmem⟩ := matchOUT_true hearly
      rw [hr] at hmem
      exact ⟨x, h x hmem, hx⟩
  | false =>
      rw [if_neg (Bool.eq_false_iff.mp hearly)] at h
      rw [← hr] at hearly
      have hlast := matchOUT_false hearly (Nat.zero_le 999) (by omega)
      rw [hr] at hlast
      exact absurd (h 999 (matchIN_mono hlast)) (by omega)

end

/-- **The matcher does what it is for exactly when** there is nothing to
look for, or the first record of the one store meets a hit in the other:
the first record there with its value, which is a filled one, has its
content. -/
theorem comparesFilled_iff (m : Memory) (v : Reclaim) (hsize : v.store.size = 100) :
    ComparesFilled m v ↔ m.store.pageFilled = 0 ∨
      ∃ k < v.store.pageFilled, FirstHit v.store.records (m.store.records 0) 0 k := by
  have hfilled := v.store.filled_le.trans v.store.bound_le
  constructor
  · intro h
    rcases Nat.eq_zero_or_pos m.store.pageFilled with hIN | hIN
    · exact Or.inl hIN
    · exact Or.inr (hit_of_inspected hIN (by omega) h.inspectedOUT)
  · intro h
    rcases Nat.eq_zero_or_pos m.store.pageFilled with hIN | hIN
    · exact comparesFilled_of_empty hIN
    · obtain ⟨k, hk, hhit⟩ := h.resolve_left (Nat.ne_of_gt hIN)
      exact comparesFilled_of_hit hIN hk (by omega) hhit

/-- Entry 300 goes out with each of the pages `outs` and comes back with
`inn`. -/
def roundTrip (outs : List Bytes) (inn : Bytes) : Kernel :=
  (Kernel.boot Kernel.blankRecords Kernel.blankRecords).run
    (outs.map (fun out =>
        .shrink Kernel.directReclaim [0] [{ Kernel.anonTry with kmap := some out }]) ++
      [.fault { Kernel.majorFault with kmap := some inn }])

/-- One record in each store, with one content. -/
theorem comparesFilled_roundTrip :
    ComparesFilled (roundTrip [fun _ => 7] fun _ => 7).memory
      (roundTrip [fun _ => 7] fun _ => 7).reclaim :=
  (comparesFilled_iff _ _ (by rfl)).mpr (Or.inr ⟨0, by decide, Nat.le_refl 0, rfl,
    fun _ _ => rfl, fun x _ hx => absurd hx (Nat.not_lt_zero x)⟩)

/-- The entry goes out twice, and comes back with the second content: the
search has given up at the first record. -/
theorem not_comparesFilled :
    ¬ ∀ (m : Memory) (v : Reclaim), m.store.size = 1000 → v.store.size = 100 →
      ComparesFilled m v := by
  intro hall
  have h := hall (roundTrip [fun _ => 1, fun _ => 2] fun _ => 2).memory
    (roundTrip [fun _ => 1, fun _ => 2] fun _ => 2).reclaim rfl rfl
  obtain ⟨k, hk, hhit⟩ := hit_of_inspected (by decide) (by decide) h.inspectedOUT
  rcases Nat.eq_zero_or_pos k with rfl | hpos
  · exact absurd (hhit.content 0 (by decide)) (by decide)
  · exact hhit.first 0 (Nat.le_refl 0) hpos rfl

end MegaVM
