import Mathlib.Order.Basic
import Mathlib.Data.Nat.Basic

/-!
# Positions in chunked storage

A sequence kept in chunks of `m` slots each: element `k` is in chunk
`k / m`, slot `k % m`. `pos` is that position and `next` the position
after one; the row-major order of the positions is the order of the
sequence (`index_pos`, `pos_index`).
-/

namespace Chunks

/-- The position of element `k`. -/
def pos (m k : Nat) : Nat × Nat := (k / m, k % m)

/-- The position after `p`: the next slot, or the start of the next
chunk. -/
def next (m : Nat) (p : Nat × Nat) : Nat × Nat :=
  if p.2 + 1 < m then (p.1, p.2 + 1) else (p.1 + 1, 0)

theorem pos_snd_lt {m : Nat} (hm : 0 < m) (k : Nat) : (pos m k).2 < m := Nat.mod_lt k hm

theorem pos_zero (m : Nat) : pos m 0 = (0, 0) := by
  rw [pos, Nat.zero_div, Nat.zero_mod]

theorem index_pos (m k : Nat) : (pos m k).1 * m + (pos m k).2 = k := by
  rw [pos, Nat.mul_comm]
  exact Nat.div_add_mod k m

theorem pos_index {m j : Nat} (i : Nat) (hj : j < m) : pos m (i * m + j) = (i, j) := by
  have hm : 0 < m := by omega
  rw [pos, Nat.mul_comm, Nat.mul_add_div hm, Nat.mul_add_mod, Nat.div_eq_of_lt hj,
    Nat.mod_eq_of_lt hj, Nat.add_zero]

theorem pos_injective (m : Nat) {k l : Nat} (h : pos m k = pos m l) : k = l := by
  rw [← index_pos m k, ← index_pos m l, h]

/-- The positions of consecutive elements are consecutive. -/
theorem next_pos {m : Nat} (hm : 0 < m) (k : Nat) : next m (pos m k) = pos m (k + 1) := by
  have hk := index_pos m k
  have hlt := pos_snd_lt hm k
  rw [next]
  split
  · rename_i hin
    have hsucc : k + 1 = (pos m k).1 * m + ((pos m k).2 + 1) := by omega
    rw [hsucc, pos_index _ hin]
  · rename_i hout
    have hlast : (pos m k).2 + 1 = m := by omega
    have hsucc : k + 1 = ((pos m k).1 + 1) * m + 0 := by
      rw [Nat.succ_mul]
      omega
    rw [hsucc, pos_index _ hm]

/-- The chunks of the first `n * m` elements are the first `n`. -/
theorem pos_fst_lt {m n k : Nat} (hm : 0 < m) : (pos m k).1 < n ↔ k < n * m :=
  Nat.div_lt_iff_lt_mul hm

/-- The position of the last element of `n` full chunks. -/
theorem pos_last {m n : Nat} (hm : 0 < m) (hn : 0 < n) :
    pos m (n * m - 1) = (n - 1, m - 1) := by
  have hsplit : n * m - 1 = (n - 1) * m + (m - 1) := by
    obtain ⟨n, rfl⟩ : ∃ n', n = n' + 1 := ⟨n - 1, by omega⟩
    rw [Nat.succ_mul, Nat.add_sub_cancel]
    omega
  rw [hsplit, pos_index _ (by omega)]

/-- Row-major order: up to the chunk of `k`, the slots after `k` are the
elements after `k`. -/
theorem after_iff {m i j k : Nat} (hj : j < m) (hi : i ≤ (pos m k).1) :
    (i = (pos m k).1 ∧ (pos m k).2 < j) ↔ k < i * m + j := by
  have hk := index_pos m k
  have hlt := pos_snd_lt (by omega : 0 < m) k
  constructor
  · rintro ⟨rfl, h⟩
    omega
  · intro h
    rcases Nat.eq_or_lt_of_le hi with heq | hlt'
    · refine ⟨heq, ?_⟩
      rw [heq] at h
      omega
    · have hmul : (i + 1) * m ≤ (pos m k).1 * m := Nat.mul_le_mul_right m hlt'
      rw [Nat.succ_mul] at hmul
      omega

end Chunks
