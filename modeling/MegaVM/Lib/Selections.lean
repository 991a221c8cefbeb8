import Mathlib.Data.List.Basic

/-!
# Selections of a list

When two selections of one list, seen through a function, are the same
sequence: for a selection that contains the other, and for one that can
be told from its values.
-/

namespace Selections

variable {α β : Type} {l : List α} {p q : α → Bool}

/-- A selection that leaves elements out of another is shorter. -/
theorem map_filter_eq_iff_of_imp (f : α → β) (hqp : ∀ x ∈ l, q x = true → p x = true) :
    (l.filter p).map f = (l.filter q).map f ↔ ∀ x ∈ l, p x = true → q x = true := by
  have hboth : (l.filter p).filter q = l.filter q := by
    rw [List.filter_filter]
    refine List.filter_congr fun x hx => ?_
    cases hq : q x with
    | false => rfl
    | true => rw [hqp x hx hq]; rfl
  constructor
  · intro h x hx hpx
    have hsub : (l.filter q).Sublist (l.filter p) := hboth ▸ List.filter_sublist
    have hlen : (l.filter q).length = (l.filter p).length := by
      simpa only [List.length_map] using (congrArg List.length h).symm
    have hmem : x ∈ l.filter q := hsub.eq_of_length hlen ▸ List.mem_filter.mpr ⟨hx, hpx⟩
    exact (List.mem_filter.mp hmem).2
  · intro h
    refine congrArg (List.map f) (List.filter_congr fun x hx => ?_)
    exact Bool.eq_iff_iff.mpr ⟨h x hx, hqp x hx⟩

/-- Two selections with the same values are one, when one of them can be
told from its values. -/
theorem map_filter_eq_iff_of_value {f : α → β} {P : β → Prop}
    (hp : ∀ x ∈ l, p x = true ↔ P (f x)) :
    (l.filter p).map f = (l.filter q).map f ↔ ∀ x ∈ l, p x = true ↔ q x = true := by
  constructor
  · intro h
    have hqp : ∀ x ∈ l, q x = true → p x = true := by
      intro x hx hqx
      have hmem : f x ∈ (l.filter p).map f := by
        rw [h]
        exact List.mem_map_of_mem (List.mem_filter.mpr ⟨hx, hqx⟩)
      obtain ⟨y, hy, hfy⟩ := List.mem_map.mp hmem
      obtain ⟨hyl, hpy⟩ := List.mem_filter.mp hy
      exact (hp x hx).mpr (hfy ▸ (hp y hyl).mp hpy)
    have hpq := (map_filter_eq_iff_of_imp f hqp).mp h
    exact fun x hx => ⟨hpq x hx, hqp x hx⟩
  · intro h
    exact congrArg (List.map f) (List.filter_congr fun x hx => Bool.eq_iff_iff.mpr (h x hx))

end Selections
