import Mathlib.Algebra.BigOperators.Group.Finset.Basic
import Mathlib.Algebra.Order.BigOperators.Group.Finset

/-!
# Tallies

What a finite family of holders has in all: `g` says how much one holder
counts for. A step changes one holder at a time.

* `tally_update`, `tally_split`, `sum_update` — the balance of such a step;
* `le_tally`, `add_le_tally` — one holder, or two, against all of them.
-/

namespace Tally

variable {ι β M : Type} [Fintype ι]

/-- What the family has in all. -/
def tally [AddCommMonoid M] (g : β → M) (f : ι → β) : M := ∑ i, g (f i)

theorem tally_zero [AddCommMonoid M] {g : β → M} {f : ι → β} (h : ∀ i, g (f i) = 0) :
    tally g f = 0 := Finset.sum_eq_zero fun i _ => h i

theorem le_tally (g : β → Nat) (f : ι → β) (i : ι) : g (f i) ≤ tally g f :=
  Finset.single_le_sum (fun j _ => Nat.zero_le (g (f j))) (Finset.mem_univ i)

theorem tally_le_tally {g g' : β → Nat} (h : ∀ b, g b ≤ g' b) (f : ι → β) :
    tally g f ≤ tally g' f := Finset.sum_le_sum fun i _ => h (f i)

variable [DecidableEq ι]

/-- One holder changes: what it had leaves the tally, what it has comes in. -/
theorem tally_update [AddCommMonoid M] (g : β → M) (f : ι → β) (i : ι) (x : β) :
    tally g (Function.update f i x) + g (f i) = tally g f + g x := by
  have hrest : ∑ j ∈ Finset.univ.erase i, g (Function.update f i x j)
      = ∑ j ∈ Finset.univ.erase i, g (f j) := by
    refine Finset.sum_congr rfl fun j hj => ?_
    rw [Function.update_of_ne (Finset.ne_of_mem_erase hj)]
  rw [tally, tally, ← Finset.add_sum_erase _ _ (Finset.mem_univ i), hrest,
    ← Finset.add_sum_erase _ (fun j => g (f j)) (Finset.mem_univ i), Function.update_self,
    add_right_comm, add_comm (g x), add_right_comm]

/-- The others' share stays what it is whatever the one holder turns into. -/
theorem tally_split (g : β → Nat) (f : ι → β) (i : ι) :
    ∃ rest, tally g f = rest + g (f i) ∧ ∀ x, tally g (Function.update f i x) = rest + g x := by
  refine ⟨tally g f - g (f i), (Nat.sub_add_cancel (le_tally g f i)).symm, fun x => ?_⟩
  have hsum := tally_update g f i x
  have hle := le_tally g f i
  omega

/-- Two different holders have no more than all of them. -/
theorem add_le_tally (g : β → Nat) (f : ι → β) {i j : ι} (h : i ≠ j) :
    g (f i) + g (f j) ≤ tally g f := by
  rw [tally, ← Finset.add_sum_erase _ _ (Finset.mem_univ i)]
  refine Nat.add_le_add_left ?_ _
  exact Finset.single_le_sum (f := fun j => g (f j)) (fun j _ => Nat.zero_le _)
    (Finset.mem_erase.mpr ⟨h.symm, Finset.mem_univ j⟩)

/-- Where it depends on the holder what it counts for. -/
theorem sum_update [AddCommGroup M] (g : ι → β → M) (f : ι → β) (j : ι) (x : β) :
    (∑ i, g i (Function.update f j x i)) = (∑ i, g i (f i)) - g j (f j) + g j x := by
  have hrest : ∑ i ∈ Finset.univ.erase j, g i (Function.update f j x i)
      = ∑ i ∈ Finset.univ.erase j, g i (f i) := by
    refine Finset.sum_congr rfl fun i hi => ?_
    rw [Function.update_of_ne (Finset.ne_of_mem_erase hi)]
  rw [← Finset.add_sum_erase _ _ (Finset.mem_univ j), hrest, Function.update_self,
    ← Finset.add_sum_erase _ (fun i => g i (f i)) (Finset.mem_univ j), add_sub_cancel_left,
    add_comm]

end Tally
