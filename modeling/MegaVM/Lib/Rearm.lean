import Mathlib.Data.List.Basic

/-!
# A drained queue with a one-shot notification

An arrival at an armed queue disarms it and queues one invocation of its
consumer; an arrival at a queue that is not armed only lengthens it. The
consumer arms the queue first and then takes items until it finds none.
Arrivals may fall before, between and after these steps, and an
invocation may find the queue already drained by the one before it.

* `Line` and `Move` — the queue and what can happen to it;
* `Live` — the invariant that couples notification, content and consumer;
* `Live.rests` — a queue nobody works on or is about to work on is empty
  and armed.
-/

namespace Rearm

variable {α : Type}

structure Line (α : Type) where
  queue : List α
  armed : Bool
  /-- Invocations of the consumer not started yet. -/
  pending : Nat
  /-- The consumer is taking items. -/
  draining : Bool

inductive Move : Line α → Line α → Prop
  | arrive (q : Line α) (a : α) :
      Move q { q with
        queue := q.queue ++ [a]
        armed := false
        pending := if q.armed then q.pending + 1 else q.pending }
  /-- An invocation starts, and arms the queue. -/
  | enter (q : Line α) :
      Move q { q with armed := true, pending := q.pending - 1, draining := true }
  | take (q : Line α) (a : α) (rest : List α) (hd : q.draining = true)
      (hq : q.queue = a :: rest) : Move q { q with queue := rest }
  | leave (q : Line α) (hq : q.queue = []) : Move q { q with draining := false }

/-- No item waits without somebody to take it, and the next arrival will
not go unnoticed. -/
structure Live (q : Line α) : Prop where
  notify : q.armed = true ∨ q.pending ≠ 0
  handler : q.queue ≠ [] → q.pending ≠ 0 ∨ q.draining = true

theorem Live.move {q q' : Line α} (h : Live q) (hm : Move q q') : Live q' := by
  cases hm with
  | arrive a =>
      -- either the arrival queues an invocation, or there is one already
      have hpending : (if q.armed then q.pending + 1 else q.pending) ≠ 0 := by
        rcases h.notify with harmed | hne
        · rw [if_pos harmed]
          exact Nat.succ_ne_zero _
        · split
          · exact Nat.succ_ne_zero _
          · exact hne
      exact ⟨.inr hpending, fun _ => .inl hpending⟩
  | enter => exact ⟨.inl rfl, fun _ => .inr rfl⟩
  | take a rest hd hq => exact ⟨h.notify, fun _ => .inr hd⟩
  | leave hq => exact ⟨h.notify, fun hne => absurd hq hne⟩

/-- **Nothing is stranded.** -/
theorem Live.rests {q : Line α} (h : Live q) (hp : q.pending = 0) (hd : q.draining = false) :
    q.queue = [] ∧ q.armed = true := by
  constructor
  · by_contra hne
    rcases h.handler hne with hpending | hdraining
    · exact hpending hp
    · simp [hd] at hdraining
  · rcases h.notify with harmed | hpending
    · exact harmed
    · exact absurd hp hpending

end Rearm
