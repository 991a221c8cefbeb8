import Mathlib.Logic.Function.Basic
import Mathlib.Data.List.Induction

/-!
# Sequences of stores

Memory is a function from locations to values, and a program stores to it
one location at a time. `apply` runs a list of stores in order: a location
that none of them names keeps its value, any other holds what the last one
has put there.
-/

namespace Stores

variable {α β γ : Type} [DecidableEq α] [DecidableEq γ]

/-- The memory after the stores `ws`. -/
def apply (ws : List (α × β)) (mem : α → β) : α → β :=
  ws.foldl (fun m w => Function.update m w.1 w.2) mem

theorem apply_cons (w : α × β) (ws : List (α × β)) (mem : α → β) :
    apply (w :: ws) mem = apply ws (Function.update mem w.1 w.2) := rfl

theorem apply_append (ws ws' : List (α × β)) (mem : α → β) :
    apply (ws ++ ws') mem = apply ws' (apply ws mem) := List.foldl_append

theorem apply_concat (ws : List (α × β)) (a : α) (b : β) (mem : α → β) :
    apply (ws ++ [(a, b)]) mem = Function.update (apply ws mem) a b := apply_append ws _ mem

/-- The frame rule. -/
theorem apply_of_ne {ws : List (α × β)} {x : α} (h : ∀ w ∈ ws, w.1 ≠ x) (mem : α → β) :
    apply ws mem x = mem x := by
  induction ws generalizing mem with
  | nil => rfl
  | cons w ws ih =>
      rw [apply_cons, ih fun v hv => h v (List.mem_cons_of_mem w hv)]
      exact Function.update_of_ne (h w List.mem_cons_self).symm _ _

/-- A list stored from location `i` on. -/
theorem apply_zipIdx (l : List β) (i : Nat) (mem : Nat → β) {j : Nat} (hj : j < l.length) :
    apply ((l.zipIdx i).map fun p => (p.2, p.1)) mem (i + j) = l[j] := by
  induction l generalizing i j mem with
  | nil => cases hj
  | cons b l ih =>
      rw [List.zipIdx_cons, List.map_cons, apply_cons]
      cases j with
      | zero =>
          -- the stores to come are behind `i`
          have hlater : ∀ w ∈ (l.zipIdx (i + 1)).map fun p => (p.2, p.1), w.1 ≠ i := by
            intro w hw
            obtain ⟨p, hp, rfl⟩ := List.mem_map.mp hw
            have := List.le_snd_of_mem_zipIdx hp
            exact Nat.ne_of_gt this
          exact (apply_of_ne hlater _).trans (Function.update_self i b mem)
      | succ j =>
          rw [show i + (j + 1) = i + 1 + j by omega]
          exact ih (i + 1) _ (Nat.lt_of_succ_lt_succ hj)

/-- The stores seen through a view of the memory that keeps the stored
locations apart. -/
theorem apply_map {f : γ → α} {ws : List (γ × β)} {x : γ} (mem : α → β)
    (hf : ∀ w ∈ ws, f w.1 = f x → w.1 = x) :
    apply (ws.map fun w => (f w.1, w.2)) mem (f x) = apply ws (fun y => mem (f y)) x := by
  induction ws using List.reverseRecOn with
  | nil => rfl
  | append_singleton ws w ih =>
      rw [List.map_append, List.map_singleton, apply_concat, apply_concat]
      by_cases hw : w.1 = x
      · rw [← hw, Function.update_self, Function.update_self]
      · have hfw : f x ≠ f w.1 := fun heq =>
          hw (hf w (List.mem_append_right ws List.mem_cons_self) heq.symm)
        rw [Function.update_of_ne hfw, Function.update_of_ne (Ne.symm hw)]
        exact ih fun v hv => hf v (List.mem_append_left _ hv)

end Stores
