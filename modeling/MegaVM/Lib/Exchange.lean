import Mathlib.Logic.Equiv.Basic
import Mathlib.Data.List.Pairwise

/-!
# Exchanging pairs of locations

Memory is a function from locations to values. `exchange` swaps the
contents of the two locations of every pair of a list, one pair after the
other. As long as no location belongs to two pairs (`Apart`), the order
does not matter: every pair ends up exchanged, everything else is as
before, and exchanging again restores the memory. The two locations of a
pair may be the same.
-/

namespace Exchange

variable {α β : Type} [DecidableEq α]

/-- The two locations change their contents. -/
def swap (mem : α → β) (p : α × α) : α → β := mem ∘ Equiv.swap p.1 p.2

def exchange (ps : List (α × α)) (mem : α → β) : α → β := ps.foldl swap mem

/-- No location belongs to both pairs. -/
def Apart (p q : α × α) : Prop :=
  (p.1 ≠ q.1 ∧ p.1 ≠ q.2) ∧ p.2 ≠ q.1 ∧ p.2 ≠ q.2

theorem swap_fst (mem : α → β) (p : α × α) : swap mem p p.1 = mem p.2 :=
  congrArg mem (Equiv.swap_apply_left p.1 p.2)

theorem swap_snd (mem : α → β) (p : α × α) : swap mem p p.2 = mem p.1 :=
  congrArg mem (Equiv.swap_apply_right p.1 p.2)

theorem swap_of_ne (mem : α → β) {p : α × α} {x : α} (h : x ≠ p.1 ∧ x ≠ p.2) :
    swap mem p x = mem x :=
  congrArg mem (Equiv.swap_apply_of_ne_of_ne h.1 h.2)

/-- Two stores through a buffer make a swap, also when both go to one
location. -/
theorem update_update_eq_swap (mem : α → β) (a b : α) :
    Function.update (Function.update mem b (mem a)) a (mem b) = swap mem (a, b) := by
  ext1 x
  by_cases ha : x = a
  · rw [ha, Function.update_self]
    exact (swap_fst mem (a, b)).symm
  · rw [Function.update_of_ne ha]
    by_cases hb : x = b
    · rw [hb, Function.update_self]
      exact (swap_snd mem (a, b)).symm
    · rw [Function.update_of_ne hb]
      exact (swap_of_ne mem ⟨ha, hb⟩).symm

variable {ps : List (α × α)}

theorem exchange_cons (p : α × α) (ps : List (α × α)) (mem : α → β) :
    exchange (p :: ps) mem = exchange ps (swap mem p) := rfl

theorem exchange_append (ps qs : List (α × α)) (mem : α → β) :
    exchange (ps ++ qs) mem = exchange qs (exchange ps mem) := List.foldl_append

/-- The frame rule. -/
theorem exchange_of_ne {x : α} (h : ∀ p ∈ ps, x ≠ p.1 ∧ x ≠ p.2) (mem : α → β) :
    exchange ps mem x = mem x := by
  induction ps generalizing mem with
  | nil => rfl
  | cons p ps ih =>
      rw [exchange_cons, ih fun q hq => h q (List.mem_cons_of_mem p hq)]
      exact swap_of_ne mem (h p List.mem_cons_self)

/-- Every pair of a list without common locations is exchanged. -/
theorem exchange_mem (hps : ps.Pairwise Apart) {p : α × α} (hp : p ∈ ps) (mem : α → β) :
    exchange ps mem p.1 = mem p.2 ∧ exchange ps mem p.2 = mem p.1 := by
  induction ps generalizing mem with
  | nil => cases hp
  | cons q ps ih =>
      obtain ⟨hq, hps⟩ := List.pairwise_cons.mp hps
      rw [exchange_cons]
      rcases List.mem_cons.mp hp with rfl | hp
      · -- the pairs to come touch neither location
        rw [exchange_of_ne (fun r hr => (hq r hr).1), exchange_of_ne (fun r hr => (hq r hr).2)]
        exact ⟨swap_fst mem p, swap_snd mem p⟩
      · obtain ⟨⟨h11, h12⟩, h21, h22⟩ := hq p hp
        obtain ⟨hfst, hsnd⟩ := ih hps hp (swap mem q)
        rw [hfst, hsnd, swap_of_ne mem ⟨h12.symm, h22.symm⟩, swap_of_ne mem ⟨h11.symm, h21.symm⟩]
        exact ⟨rfl, rfl⟩

/-- Exchanging twice restores the memory. -/
theorem exchange_exchange (hps : ps.Pairwise Apart) (mem : α → β) :
    exchange ps (exchange ps mem) = mem := by
  ext1 x
  by_cases hx : ∀ p ∈ ps, x ≠ p.1 ∧ x ≠ p.2
  · rw [exchange_of_ne hx, exchange_of_ne hx]
  · push Not at hx
    obtain ⟨p, hp, hx⟩ := hx
    obtain ⟨hfst, hsnd⟩ := exchange_mem hps hp mem
    obtain ⟨hfst', hsnd'⟩ := exchange_mem hps hp (exchange ps mem)
    by_cases h1 : x = p.1
    · rw [h1, hfst', hsnd]
    · rw [hx h1, hsnd', hfst]

end Exchange
