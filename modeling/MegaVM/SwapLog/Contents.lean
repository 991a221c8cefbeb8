import MegaVM.SwapLog.Events

/-!
# What the stores of page contents hold

The hooks store a value, the bytes of a page one at a time, and then count
the record. `fill_stores` takes `PageStore.fill` apart into these stores;
`Records` is the law both stores obey in every run of the kernel: the
filled records are the first captures, in order, each with the value and
the page of one of them.
-/

namespace MegaVM

namespace PageStore

/-! ## One store after the other -/

/-- An assignment of the hook through `pageContentStore`. -/
inductive RecordStore
  | value (pageFilled : Nat) (v : Ulong)
  | content (pageFilled index : Nat) (byte : BitVec 8)

/-- The indices are those of an allocation of `size` records. -/
def RecordStore.Inside (size : Nat) : RecordStore → Prop
  | .value k _ => k < size
  | .content k index _ => k < size ∧ index < pageSize

/-- The memory after an assignment. -/
def RecordStore.exec (records : Nat → PageRecord) : RecordStore → Nat → PageRecord
  | .value k v => Function.update records k { records k with value := v }
  | .content k index byte =>
      Function.update records k
        { records k with content := Function.update (records k).content index byte }

/-- The turns of the loop over `index` up to `n`. -/
def copyStores (k : Nat) (page : Bytes) (n : Nat) : List RecordStore :=
  (List.range n).map fun index => .content k index (page index)

/-- The assignments of the hook, in order; the counter is written after
them. -/
def hookStores (s : PageStore) (value : Ulong) (page : Option Bytes) : List RecordStore :=
  if value.toNat % 100 = 0 ∧ s.pageFilled < s.bound then
    .value s.pageFilled value ::
      match page with
      | some bytes => copyStores s.pageFilled bytes pageSize
      | none => []
  else []

theorem foldl_copyStores (k : Nat) (page : Bytes) (n : Nat) (records : Nat → PageRecord) :
    (copyStores k page n).foldl RecordStore.exec records =
      Function.update records k ⟨(records k).value,
        fun index => if index < n then page index else (records k).content index⟩ := by
  induction n with
  | zero =>
      have hsame : (fun index => if index < 0 then page index else (records k).content index) =
          (records k).content := by
        ext1 index
        rw [if_neg (by omega)]
      rw [hsame]
      exact (Function.update_eq_self k records).symm
  | succ n ih =>
      have hlast : copyStores k page (n + 1) =
          copyStores k page n ++ [.content k n (page n)] := by
        rw [copyStores, List.range_succ, List.map_append]
        rfl
      rw [hlast, List.foldl_append, ih, List.foldl_cons, List.foldl_nil, RecordStore.exec,
        Function.update_self, Function.update_idem]
      refine congrArg (fun c => Function.update records k ⟨(records k).value, c⟩) ?_
      ext1 index
      -- the last turn, the turns before, the bytes behind
      by_cases hn : index = n
      · rw [hn, Function.update_self, if_pos (by omega)]
      · rw [Function.update_of_ne hn]
        dsimp only
        by_cases hlt : index < n
        · rw [if_pos hlt, if_pos (by omega)]
        · rw [if_neg hlt, if_neg (by omega)]

/-- The assignments of the hook leave the records of `fill`. -/
theorem fill_stores (s : PageStore) (value : Ulong) (page : Option Bytes) :
    (s.hookStores value page).foldl RecordStore.exec s.records =
      (s.fill value page).records := by
  unfold hookStores fill
  by_cases hroom : value.toNat % 100 = 0 ∧ s.pageFilled < s.bound
  · rw [if_pos hroom, dif_pos hroom]
    cases page with
    | none => rfl
    | some bytes =>
        dsimp only
        rw [List.foldl_cons, foldl_copyStores, RecordStore.exec, Function.update_self,
          Function.update_idem]
        rfl
  · rw [if_neg hroom, dif_neg hroom]
    rfl

/-- No assignment leaves the allocation. -/
theorem hookStores_inside (s : PageStore) (value : Ulong) (page : Option Bytes) :
    ∀ w ∈ s.hookStores value page, w.Inside s.size := by
  intro w hw
  unfold hookStores at hw
  split at hw
  · rename_i hroom
    rcases List.mem_cons.mp hw with rfl | hw
    · exact Nat.lt_of_lt_of_le hroom.2 s.bound_le
    · cases page with
      | none => cases hw
      | some bytes =>
          obtain ⟨index, hindex, rfl⟩ := List.mem_map.mp hw
          exact ⟨Nat.lt_of_lt_of_le hroom.2 s.bound_le, List.mem_range.mp hindex⟩
  · cases hw

/-- The hook is these assignments, and none of them leaves an allocation of
`size` records. -/
structure Stays (s : PageStore) (size : Nat) (value : Ulong) (page : Option Bytes) : Prop where
  stores : (s.fill value page).records =
    (s.hookStores value page).foldl RecordStore.exec s.records
  inside : ∀ w ∈ s.hookStores value page, w.Inside size

theorem fill_stays (s : PageStore) (value : Ulong) (page : Option Bytes) :
    s.Stays s.size value page :=
  ⟨(fill_stores s value page).symm, hookStores_inside s value page⟩

/-! ## The law of the filled records -/

/-- The filled records are the first of these values and pages, as many as
there is room for. -/
structure Records (s : PageStore) (captures : List (Ulong × Option Bytes)) : Prop where
  pageFilled : s.pageFilled = min s.bound captures.length
  record : ∀ k < s.pageFilled, ∃ bytes,
    captures[k]? = some ((s.records k).value, some bytes) ∧
      ∀ index < pageSize, (s.records k).content index = bytes index

theorem alloc_records (size bound : Nat) (h : bound ≤ size) (mem : Nat → PageRecord) :
    (alloc size bound h mem).Records [] :=
  ⟨(Nat.min_zero bound).symm, fun k hk => absurd hk (Nat.not_lt_zero k)⟩

variable {s : PageStore} {captures : List (Ulong × Option Bytes)}

/-- A capture that comes too late changes nothing. -/
theorem Records.full (h : s.Records captures) (hfull : s.bound ≤ s.pageFilled)
    (c : Ulong × Option Bytes) : s.Records (captures ++ [c]) := by
  have hcount := h.pageFilled
  refine ⟨?_, fun k hk => ?_⟩
  · rw [List.length_append, List.length_singleton]
    omega
  · obtain ⟨bytes, hcapture, hcontent⟩ := h.record k hk
    refine ⟨bytes, ?_, hcontent⟩
    rw [List.getElem?_append_left (by omega)]
    exact hcapture

theorem fill_of_indivisible {value : Ulong} (hdiv : value.toNat % 100 ≠ 0)
    (page : Option Bytes) : s.fill value page = s :=
  dif_neg fun hboth => hdiv hboth.1

/-- The law is kept by a call of the hook whose `kmap` succeeds. -/
theorem Records.fill (h : s.Records captures) {value : Ulong} (hdiv : value.toNat % 100 = 0)
    (bytes : Bytes) : (s.fill value (some bytes)).Records (captures ++ [(value, some bytes)]) := by
  have hcount := h.pageFilled
  unfold PageStore.fill
  by_cases hroom : s.pageFilled < s.bound
  · rw [dif_pos ⟨hdiv, hroom⟩]
    -- there is room, so every capture so far has its record
    have hlen : captures.length = s.pageFilled := by omega
    refine ⟨?_, fun k hk => ?_⟩
    · show s.pageFilled + 1 = min s.bound _
      rw [List.length_append, List.length_singleton]
      omega
    · dsimp only at hk ⊢
      by_cases hk' : k = s.pageFilled
      · -- the record just filled
        subst hk'
        refine ⟨bytes, ?_, fun index hindex => ?_⟩
        · rw [Function.update_self, ← hlen, List.getElem?_concat_length]
        · rw [Function.update_self]
          exact if_pos hindex
      · obtain ⟨bytes', hcapture, hcontent⟩ := h.record k (by omega)
        rw [Function.update_of_ne hk', List.getElem?_append_left (by omega)]
        exact ⟨bytes', hcapture, hcontent⟩
  · rw [dif_neg fun hboth => hroom hboth.2]
    exact h.full (by omega) _

/-- The law is kept by a sequence of events of which those with `reaches`
come to the hook. -/
theorem Records.foldl {α : Type} {l : List α} (value : α → Ulong) (kmap : α → Option Bytes)
    (reaches : α → Bool) (h : s.Records captures)
    (hkmap : ∀ x ∈ l, reaches x = true → (value x).toNat % 100 = 0 → (kmap x).isSome) :
    (l.foldl (fun s x => if reaches x then s.fill (value x) (kmap x) else s) s).Records
      (captures ++ (l.filter fun x => reaches x && (value x).toNat % 100 == 0).map
        fun x => (value x, kmap x)) := by
  induction l generalizing s captures with
  | nil =>
      rw [List.filter_nil, List.map_nil, List.append_nil]
      exact h
  | cons x l ih =>
      have hrest : ∀ y ∈ l, reaches y = true → (value y).toNat % 100 = 0 → (kmap y).isSome :=
        fun y hy => hkmap y (List.mem_cons_of_mem x hy)
      rw [List.foldl_cons]
      cases hreach : reaches x with
      | false =>
          rw [List.filter_cons_of_neg (by simp [hreach])]
          exact ih h hrest
      | true =>
          rw [if_pos rfl]
          -- the hook is reached; only a value divisible by 100 is recorded
          by_cases hdiv : (value x).toNat % 100 = 0
          · obtain ⟨bytes, hbytes⟩ :=
              Option.isSome_iff_exists.mp (hkmap x List.mem_cons_self hreach hdiv)
            have hfill := ih (h.fill hdiv bytes) hrest
            rw [List.append_assoc] at hfill
            rw [List.filter_cons_of_pos (by simp [hreach, hdiv]), List.map_cons, hbytes]
            exact hfill
          · rw [List.filter_cons_of_neg (by simp [hdiv]), fill_of_indivisible hdiv]
            exact ih h hrest

end PageStore

/-! ## The two stores of a run -/

/-- What comes to the hook of `do_swap_page` and qualifies for a record: the
entry and what `kmap` returns. -/
def recordableIn (es : List KernelEvent) : List (Ulong × Option Bytes) :=
  ((es.filterMap (·.fault?)).filter fun f => f.completes && f.entry.toNat % 100 == 0).map
    fun f => (f.entry, f.kmap)

/-- What comes to the hook of `shrink_page_list` and qualifies. -/
def recordableOut (es : List KernelEvent) : List (Ulong × Option Bytes) :=
  ((es.flatMap (·.handedOver)).filter fun t => t.priv != 0 && t.priv.toNat % 100 == 0).map
    fun t => (t.priv, t.kmap)

namespace Kernel

theorem run_memory_store (k : Kernel) (es : List KernelEvent) :
    (k.run es).memory.store = (es.filterMap (·.fault?)).foldl
      (fun s f => if f.completes then s.fill f.entry f.kmap else s) k.memory.store := by
  induction es generalizing k with
  | nil => rfl
  | cons e es ih =>
      rw [show k.run (e :: es) = (k.step e).run es from rfl, ih]
      cases e with
      | fault f =>
          have hstore : (k.step (.fault f)).memory.store =
              if f.completes then k.memory.store.fill f.entry f.kmap else k.memory.store :=
            doSwapPage_store k.memory f
          rw [hstore]
          rfl
      -- reclaim does not touch the globals of `memory.c`
      | shrink sc pages ts => rfl

theorem run_reclaim (k : Kernel) (es : List KernelEvent) :
    (k.run es).reclaim = (es.flatMap (·.handedOver)).foldl Reclaim.hook k.reclaim := by
  induction es generalizing k with
  | nil => rfl
  | cons e es ih =>
      rw [show k.run (e :: es) = (k.step e).run es from rfl, ih, List.flatMap_cons,
        List.foldl_append]
      congr 1
      cases e with
      -- a fault does not touch the globals of `vmscan.c`
      | fault f => rfl
      | shrink sc pages ts =>
          refine (shrinkPageList_hooked sc pages ts k.reclaim).trans ?_
          rw [shrinkPageList_pageouts]
          rfl

/-- What the hook does to the store. -/
theorem foldl_hook_store (ts : List PageTry) (v : Reclaim) :
    (ts.foldl Reclaim.hook v).store =
      ts.foldl (fun s t => if t.priv != 0 then s.fill t.priv t.kmap else s) v.store := by
  induction ts generalizing v with
  | nil => rfl
  | cons t ts ih =>
      rw [List.foldl_cons, List.foldl_cons, ih, Reclaim.hook]
      by_cases hpriv : t.priv = 0
      · rw [if_neg (not_not.mpr hpriv), if_neg (by simp [hpriv])]
      · rw [if_pos hpriv, if_pos (bne_iff_ne.mpr hpriv)]

/-- **The recorders.** At any point of a run the two stores obey the law of
the filled records, later events do not change these, and the next call of
a hook is assignments of which none leaves the allocation. -/
theorem run_records (memIN memOUT : Nat → PageRecord) (es : List KernelEvent)
    (hin : ∀ c ∈ recordableIn es, c.2.isSome) (hout : ∀ c ∈ recordableOut es, c.2.isSome) :
    (((boot memIN memOUT).run es).memory.store.size = 1000 ∧
      ((boot memIN memOUT).run es).memory.store.bound = 1000 ∧
      ((boot memIN memOUT).run es).memory.store.Records (recordableIn es)) ∧
    (((boot memIN memOUT).run es).reclaim.store.size = 100 ∧
      ((boot memIN memOUT).run es).reclaim.store.bound = 100 ∧
      ((boot memIN memOUT).run es).reclaim.store.Records (recordableOut es)) ∧
    (∀ es', ((boot memIN memOUT).run es).memory.store.Extends
        ((boot memIN memOUT).run (es ++ es')).memory.store ∧
      ((boot memIN memOUT).run es).reclaim.store.Extends
        ((boot memIN memOUT).run (es ++ es')).reclaim.store) ∧
    ∀ value page,
      ((boot memIN memOUT).run es).memory.store.Stays 1000 value page ∧
      ((boot memIN memOUT).run es).reclaim.store.Stays 100 value page := by
  obtain ⟨⟨hsizeIn, hboundIn⟩, hsizeOut, hboundOut⟩ := run_size memIN memOUT es
  have hrecIn : ((boot memIN memOUT).run es).memory.store.Records (recordableIn es) := by
    rw [run_memory_store]
    refine (PageStore.alloc_records 1000 1000 (Nat.le_refl _) memIN).foldl SwapFault.entry
      SwapFault.kmap SwapFault.completes fun f hf hreach hdiv => ?_
    have hsel : (f.completes && f.entry.toNat % 100 == 0) = true := by simp [hreach, hdiv]
    exact hin _ (List.mem_map_of_mem (List.mem_filter.mpr ⟨hf, hsel⟩))
  have hrecOut : ((boot memIN memOUT).run es).reclaim.store.Records (recordableOut es) := by
    rw [run_reclaim, foldl_hook_store]
    refine (PageStore.alloc_records 100 100 (Nat.le_refl _) memOUT).foldl PageTry.priv PageTry.kmap
      (fun t => t.priv != 0) fun t ht hreach hdiv => ?_
    have hsel : (t.priv != 0 && t.priv.toNat % 100 == 0) = true := by
      rw [hreach, hdiv]
      rfl
    exact hout _ (List.mem_map_of_mem (List.mem_filter.mpr ⟨ht, hsel⟩))
  refine ⟨⟨hsizeIn, hboundIn, hrecIn⟩, ⟨hsizeOut, hboundOut, hrecOut⟩, fun es' => ?_,
    fun value page => ⟨?_, ?_⟩⟩
  · have hrun : (boot memIN memOUT).run (es ++ es') = ((boot memIN memOUT).run es).run es' :=
      List.foldl_append
    rw [hrun]
    exact run_extends _ es'
  · rw [← hsizeIn]
    exact PageStore.fill_stays _ value page
  · rw [← hsizeOut]
    exact PageStore.fill_stays _ value page

/-- A page that counts. -/
def countingPage : Bytes := fun index => BitVec.ofNat 8 index

/-- Entry 300 is swapped out and in again. -/
def keptRound : List KernelEvent :=
  [.shrink directReclaim [0] [{ anonTry with kmap := some countingPage }],
    .fault { majorFault with kmap := some countingPage }]

theorem run_records_round :
    ((boot blankRecords blankRecords).run keptRound).memory.store.Records
        [(300, some countingPage)] ∧
      ((boot blankRecords blankRecords).run keptRound).reclaim.store.Records
        [(300, some countingPage)] := by
  have h := run_records blankRecords blankRecords keptRound (by decide) (by decide)
  exact ⟨h.1.2.2, h.2.1.2.2⟩

end Kernel

end MegaVM
