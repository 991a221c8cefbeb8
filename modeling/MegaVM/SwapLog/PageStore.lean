import Mathlib.Logic.Function.Basic
import MegaVM.SwapLog.Recorder

/-!
# The stores of page contents

`struct pageContentStore` and the hook that fills a store, which stands in
`shrink_page_list` (`pageContentStore_OUT`, 100 records) and in
`do_swap_page` (`pageContentStore_IN`, 1000). The body is one definition,
`PageStore.fill`. It writes the value before it knows whether `kmap` has
succeeded, so a record behind the filled ones can hold a value and no
content.
-/

namespace MegaVM

/-- The bytes from an address on. -/
abbrev Bytes := Nat → BitVec 8

/-- `struct pageContentStore`; only the first 4096 bytes of `content`
exist. -/
structure PageRecord where
  value : Ulong
  content : Bytes

/-- A store with the global that counts its records. -/
structure PageStore where
  /-- Records the allocation has room for. -/
  size : Nat
  /-- The bound in the test of the hook. -/
  bound : Nat
  pageFilled : Nat
  /-- Memory from the address of the store on. -/
  records : Nat → PageRecord
  bound_le : bound ≤ size
  filled_le : pageFilled ≤ bound

namespace PageStore

/-- What `kmalloc` returns: memory with any content. -/
def alloc (size bound : Nat) (h : bound ≤ size) (mem : Nat → PageRecord) : PageStore :=
  ⟨size, bound, 0, mem, h, Nat.zero_le bound⟩

/-- The bytes of a page. -/
def pageSize : Nat := 4096

/-- The loop over `index`. -/
def copyContent (old page : Bytes) : Bytes :=
  fun index => if index < pageSize then page index else old index

/-- The body of the two hooks; `page` is what `kmap` returns. -/
def fill (s : PageStore) (value : Ulong) (page : Option Bytes) : PageStore :=
  if hroom : value.toNat % 100 = 0 ∧ s.pageFilled < s.bound then
    let old := s.records s.pageFilled
    match page with
    | some bytes =>
        { s with
          records := Function.update s.records s.pageFilled
            ⟨value, copyContent old.content bytes⟩
          pageFilled := s.pageFilled + 1
          filled_le := hroom.2 }
    | none =>
        { s with records := Function.update s.records s.pageFilled { old with value := value } }
  else s

variable {s : PageStore} {value : Ulong} {page : Option Bytes}

/-- The store holds what it has held, and perhaps more. -/
structure Extends (s s' : PageStore) : Prop where
  size : s'.size = s.size
  bound : s'.bound = s.bound
  pageFilled : s.pageFilled ≤ s'.pageFilled
  records : ∀ k < s.pageFilled, s'.records k = s.records k

theorem Extends.refl (s : PageStore) : s.Extends s := ⟨rfl, rfl, Nat.le_refl _, fun _ _ => rfl⟩

theorem Extends.trans {s s' s'' : PageStore} (h : s.Extends s') (h' : s'.Extends s'') :
    s.Extends s'' := by
  refine ⟨h'.size.trans h.size, h'.bound.trans h.bound,
    Nat.le_trans h.pageFilled h'.pageFilled, fun k hk => ?_⟩
  rw [h'.records k (Nat.lt_of_lt_of_le hk h.pageFilled), h.records k hk]

/-- The hook changes no filled record. -/
theorem fill_extends : s.Extends (s.fill value page) := by
  unfold fill
  split
  · cases page with
    | some bytes =>
        exact ⟨rfl, rfl, Nat.le_succ _, fun k hk => Function.update_of_ne (Nat.ne_of_lt hk) _ _⟩
    | none =>
        exact ⟨rfl, rfl, Nat.le_refl _, fun k hk => Function.update_of_ne (Nat.ne_of_lt hk) _ _⟩
  · exact Extends.refl s

end PageStore

end MegaVM
