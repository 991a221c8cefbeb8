import Mathlib.Data.List.Basic

/-!
# Ownership ledgers

What a sequence of acquisitions, uses and releases leaves behind: the
objects that are live, and how often an object was used or released that
was not. A ledger is balanced when nothing is live and nothing was
misused; then every acquired object has been released exactly once.

* `run_append` — one call after the other;
* `misuses_le_run` — a misuse is never forgotten;
* `misuses_pos_of_wild` — an operation through a pointer to nothing is
  one;
* `mem_live_of_acquire` — what is acquired and not released is live.
-/

namespace Ledger

/-- An operation on an object. -/
inductive Op (α : Type)
  | acquire (o : α)
  | use (o : α)
  | release (o : α)
  /-- A use or a release through a pointer that points to no object. -/
  | wild
  deriving DecidableEq, Repr

end Ledger

/-- The objects that are live, and the number of misuses so far. -/
structure Ledger (α : Type) where
  live : List α
  misuses : Nat
  deriving DecidableEq, Repr

namespace Ledger

variable {α : Type} [DecidableEq α]

/-- One operation. -/
def apply (l : Ledger α) : Op α → Ledger α
  | .acquire o => { l with live := o :: l.live }
  | .use o => if o ∈ l.live then l else { l with misuses := l.misuses + 1 }
  | .release o =>
      if o ∈ l.live then { l with live := l.live.erase o }
      else { l with misuses := l.misuses + 1 }
  | .wild => { l with misuses := l.misuses + 1 }

/-- Operations in order. -/
def run (l : Ledger α) : List (Op α) → Ledger α
  | [] => l
  | op :: ops => run (l.apply op) ops

/-- Everything acquired is released, and nothing else was touched. -/
def Balanced (l : Ledger α) : Prop := l.live = [] ∧ l.misuses = 0

instance (l : Ledger α) : Decidable l.Balanced := inferInstanceAs (Decidable (_ ∧ _))

@[simp] theorem run_nil (l : Ledger α) : l.run [] = l := rfl

@[simp] theorem run_cons (l : Ledger α) (op : Op α) (ops : List (Op α)) :
    l.run (op :: ops) = (l.apply op).run ops := rfl

theorem run_append (l : Ledger α) (ops ops' : List (Op α)) :
    l.run (ops ++ ops') = (l.run ops).run ops' := by
  induction ops generalizing l with
  | nil => rfl
  | cons op ops ih => exact ih (l.apply op)

theorem misuses_le_apply (l : Ledger α) (op : Op α) : l.misuses ≤ (l.apply op).misuses := by
  cases op with
  | acquire o => exact Nat.le_refl _
  | use o =>
      simp only [apply]
      split
      · exact Nat.le_refl _
      · exact Nat.le_succ _
  | release o =>
      simp only [apply]
      split
      · exact Nat.le_refl _
      · exact Nat.le_succ _
  | wild => exact Nat.le_succ _

/-- A misuse is never forgotten. -/
theorem misuses_le_run (l : Ledger α) (ops : List (Op α)) :
    l.misuses ≤ (l.run ops).misuses := by
  induction ops generalizing l with
  | nil => exact Nat.le_refl _
  | cons op ops ih => exact Nat.le_trans (misuses_le_apply l op) (ih (l.apply op))

theorem misuses_pos_of_wild {l : Ledger α} {ops : List (Op α)} (h : .wild ∈ ops) :
    0 < (l.run ops).misuses := by
  induction ops generalizing l with
  | nil => cases h
  | cons op ops ih =>
      rcases List.mem_cons.mp h with rfl | h
      · exact Nat.lt_of_lt_of_le (Nat.succ_pos _) (misuses_le_run (l.apply .wild) ops)
      · exact ih h

/-- What is live stays live until it is released. -/
theorem mem_live_run {l : Ledger α} {o : α} {ops : List (Op α)} (ho : o ∈ l.live)
    (h : .release o ∉ ops) : o ∈ (l.run ops).live := by
  induction ops generalizing l with
  | nil => exact ho
  | cons op ops ih =>
      have hne : op ≠ .release o := by
        intro heq
        exact h (heq ▸ List.mem_cons_self)
      apply ih
      · cases op with
        | acquire o' => exact List.mem_cons_of_mem o' ho
        | use o' =>
            simp only [apply]
            split <;> exact ho
        | release o' =>
            have hdiff : o ≠ o' := by
              intro heq
              exact hne (heq ▸ rfl)
            simp only [apply]
            split
            · exact (List.mem_erase_of_ne hdiff).mpr ho
            · exact ho
        | wild => exact ho
      · intro hmem
        exact h (List.mem_cons_of_mem op hmem)

/-- What is acquired and not released is live. -/
theorem mem_live_of_acquire {l : Ledger α} {o : α} {ops : List (Op α)}
    (hacq : .acquire o ∈ ops) (hrel : .release o ∉ ops) : o ∈ (l.run ops).live := by
  induction ops generalizing l with
  | nil => cases hacq
  | cons op ops ih =>
      have hrel' : .release o ∉ ops := by
        intro hmem
        exact hrel (List.mem_cons_of_mem op hmem)
      rcases List.mem_cons.mp hacq with rfl | hacq
      · rw [run_cons]
        exact mem_live_run List.mem_cons_self hrel'
      · exact ih hacq hrel'

end Ledger
