import Mathlib.Data.List.Basic
import Mathlib.Data.List.Chain
import Mathlib.Order.WellFounded

/-!
# Runs of a labelled machine

A machine is a partial step function `step : σ → ℓ → Option σ`: the label
resolves every choice of the environment, so a run is a list of labels.
`ok : σ → ℓ → Prop` says which labels the environment may use in which
state; an assumption on the environment is a choice of `ok`, never a
change of the machine.

* `Reach step ok s₀ s` — some admissible run leads from `s₀` to `s`;
* `Reach.invariant` — the induction every safety proof uses;
* `exec` — the executable run, and `reach_of_exec` back to `Reach`;
* `Path` — a run with the states it passes, `trace` to make one, its
  invariant rules and `Path.absorbing_iff`;
* `ghost` — a machine with a history variable, and `Path.ghost`, which
  turns a run of the machine into one that carries it;
* `finishes_of_progress` — a machine that always has a step down a
  well-founded measure can always be driven to its end;
* `comes_to_rest` — if every step that changes something leads down the
  measure, no run changes something for ever.
-/

namespace Runs

variable {σ ℓ : Type}

/-- States reachable from `s₀` when every step is admissible. -/
inductive Reach (step : σ → ℓ → Option σ) (ok : σ → ℓ → Prop) (s₀ : σ) : σ → Prop
  | refl : Reach step ok s₀ s₀
  | tail {s s' : σ} (l : ℓ) : Reach step ok s₀ s → ok s l → step s l = some s' →
      Reach step ok s₀ s'

variable {step : σ → ℓ → Option σ} {ok : σ → ℓ → Prop} {s₀ s s' : σ}

/-- The invariant rule: what holds at the start and survives every
admissible step holds in every reachable state. -/
theorem Reach.invariant {P : σ → Prop} (h : Reach step ok s₀ s) (h0 : P s₀)
    (hstep : ∀ a l b, P a → ok a l → step a l = some b → P b) : P s := by
  induction h with
  | refl => exact h0
  | tail l _ hok hs ih => exact hstep _ l _ ih hok hs

theorem Reach.trans {t : σ} (h : Reach step ok s₀ s) (h' : Reach step ok s t) :
    Reach step ok s₀ t := by
  induction h' with
  | refl => exact h
  | tail l _ hok hs ih => exact .tail l ih hok hs

theorem Reach.single {l : ℓ} (hok : ok s l) (hs : step s l = some s') :
    Reach step ok s s' := .tail l .refl hok hs

/-! ## Executable runs -/

/-- Run a list of labels; a label that is not admissible ends in `none`. -/
def exec (step : σ → ℓ → Option σ) (ok : σ → ℓ → Prop) [∀ s l, Decidable (ok s l)] :
    σ → List ℓ → Option σ
  | s, [] => some s
  | s, l :: ls => if ok s l then (step s l).bind fun s' => exec step ok s' ls else none

section Exec
variable [∀ s l, Decidable (ok s l)]

theorem exec_cons_eq_some {l : ℓ} {ls : List ℓ} :
    exec step ok s (l :: ls) = some s'
      ↔ ok s l ∧ ∃ t, step s l = some t ∧ exec step ok t ls = some s' := by
  by_cases h : ok s l <;> simp [exec, h, Option.bind_eq_some_iff]

theorem reach_of_exec {ls : List ℓ} (h : exec step ok s ls = some s') :
    Reach step ok s s' := by
  induction ls generalizing s with
  | nil => cases h; exact .refl
  | cons l ls ih =>
    obtain ⟨hok, t, hs, ht⟩ := exec_cons_eq_some.mp h
    exact (Reach.single hok hs).trans (ih ht)

end Exec

/-! ## Runs with their states -/

/-- A run from `s`: the labels it uses, each with the state it leads to. -/
inductive Path (step : σ → ℓ → Option σ) : σ → List (ℓ × σ) → Prop
  | nil (s : σ) : Path step s []
  | cons {s s' : σ} {l : ℓ} {p : List (ℓ × σ)} :
      step s l = some s' → Path step s' p → Path step s ((l, s') :: p)

/-- The states a run passes, the first one included. -/
def states (s : σ) (p : List (ℓ × σ)) : List σ := s :: p.map Prod.snd

/-- The steps of a run: state, label and next state. -/
def steps : σ → List (ℓ × σ) → List (σ × ℓ × σ)
  | _, [] => []
  | s, (l, s') :: p => (s, l, s') :: steps s' p

theorem steps_mem_step {p : List (ℓ × σ)} (h : Path step s p) {t : σ × ℓ × σ}
    (ht : t ∈ steps s p) : step t.1 t.2.1 = some t.2.2 := by
  induction h with
  | nil => simp [steps] at ht
  | cons hs _ ih =>
    rcases List.mem_cons.mp ht with rfl | ht
    · exact hs
    · exact ih ht

/-- The state a run ends in. -/
def last : σ → List (ℓ × σ) → σ
  | s, [] => s
  | _, (_, s') :: p => last s' p

theorem last_mem_states (s : σ) (p : List (ℓ × σ)) : last s p ∈ states s p := by
  induction p generalizing s with
  | nil => exact List.mem_singleton.mpr rfl
  | cons t p ih => exact List.mem_cons_of_mem s (ih t.2)

/-- The end of a run is reachable from every state it passes. -/
theorem Path.reach_last {p : List (ℓ × σ)} (h : Path step s p) :
    ∀ c ∈ states s p, Reach step (fun _ _ => True) c (last s p) := by
  induction h with
  | nil s =>
    intro c hc
    rw [List.mem_singleton.mp hc]
    exact .refl
  | cons hs _ ih =>
    intro c hc
    rcases List.mem_cons.mp hc with rfl | hc
    · exact (Reach.single trivial hs).trans (ih _ List.mem_cons_self)
    · exact ih c hc

/-- The invariant rule along one run, of whose states something is
already known. -/
theorem Path.invariant {P Q : σ → Prop} {p : List (ℓ × σ)} (h : Path step s p)
    (hQ : ∀ c ∈ states s p, Q c) (h0 : P s)
    (hstep : ∀ a l b, Q a → P a → step a l = some b → P b) : ∀ c ∈ states s p, P c := by
  induction h with
  | nil s =>
    intro c hc
    rw [List.mem_singleton.mp hc]
    exact h0
  | @cons a b l p hs _ ih =>
    have hb : P b := hstep a l b (hQ a List.mem_cons_self) h0 hs
    intro c hc
    rcases List.mem_cons.mp hc with rfl | hc
    · exact h0
    · exact ih (fun c hc => hQ c (List.mem_cons_of_mem a hc)) hb c hc

theorem steps_mem_states {p : List (ℓ × σ)} {s : σ} {t : σ × ℓ × σ} (ht : t ∈ steps s p) :
    t.1 ∈ states s p ∧ t.2.2 ∈ states s p := by
  induction p generalizing s with
  | nil => cases ht
  | cons a p ih =>
    rcases List.mem_cons.mp ht with rfl | ht
    · exact ⟨List.mem_cons_self, List.mem_cons_of_mem s List.mem_cons_self⟩
    · exact ⟨List.mem_cons_of_mem s (ih ht).1, List.mem_cons_of_mem s (ih ht).2⟩

/-- The invariant rule along one run, of whose steps something is already
known. -/
theorem Path.invariant_steps {P : σ → Prop} {p : List (ℓ × σ)} (h : Path step s p) (h0 : P s)
    (hstep : ∀ t ∈ steps s p, P t.1 → P t.2.2) : ∀ c ∈ states s p, P c := by
  induction h with
  | nil s =>
    intro c hc
    rw [List.mem_singleton.mp hc]
    exact h0
  | @cons a b l p hs _ ih =>
    have hb : P b := hstep (a, l, b) List.mem_cons_self h0
    intro c hc
    rcases List.mem_cons.mp hc with rfl | hc
    · exact h0
    · exact ih hb (fun t ht => hstep t (List.mem_cons_of_mem _ ht)) c hc

/-- When a step from a good state leads to a good state exactly if it is
`ok`, a run passes good states only exactly if all its steps are `ok`. -/
theorem Path.forall_states_iff {P Q : σ → Prop} {p : List (ℓ × σ)} (h : Path step s p)
    (hQ : ∀ c ∈ states s p, Q c) (h0 : P s)
    (hstep : ∀ a l b, Q a → step a l = some b → P a → (P b ↔ ok a l)) :
    (∀ c ∈ states s p, P c) ↔ ∀ t ∈ steps s p, ok t.1 t.2.1 := by
  induction h with
  | nil s =>
    refine iff_of_true (fun c hc => ?_) fun t ht => absurd ht List.not_mem_nil
    rw [List.mem_singleton.mp hc]
    exact h0
  | @cons a b l p hs hp ih =>
    have hiff := hstep a l b (hQ a List.mem_cons_self) hs h0
    have hrest : ∀ c ∈ states b p, Q c := fun c hc => hQ c (List.mem_cons_of_mem a hc)
    constructor
    · intro hall t ht
      have hb : P b := hall b (List.mem_cons_of_mem a List.mem_cons_self)
      rcases List.mem_cons.mp ht with rfl | ht
      · exact hiff.mp hb
      · exact (ih hrest hb).mp (fun c hc => hall c (List.mem_cons_of_mem a hc)) t ht
    · intro hall c hc
      have hb : P b := hiff.mpr (hall (a, l, b) List.mem_cons_self)
      rcases List.mem_cons.mp hc with rfl | hc
      · exact h0
      · exact (ih hrest hb).mpr (fun t ht => hall t (List.mem_cons_of_mem _ ht)) c hc

/-- The invariant rule for statements about a state and the steps that
led to it. -/
theorem Path.invariant_history {P : List (σ × ℓ × σ) → σ → Prop} {p : List (ℓ × σ)}
    (h : Path step s p) (h0 : P [] s)
    (hstep : ∀ ts a l b, (a, l, b) ∈ steps s p → step a l = some b → P ts a →
      P (ts ++ [(a, l, b)]) b) : P (steps s p) (last s p) := by
  -- `before` are the steps that led to the start of the rest of the run
  suffices hgen : ∀ before, P before s → P (before ++ steps s p) (last s p) from hgen [] h0
  clear h0
  induction h with
  | nil s =>
    intro before hP
    rw [steps, List.append_nil]
    exact hP
  | @cons a b l p hs _ ih =>
    intro before hP
    have hnext := ih (fun ts a' l' b' hmem => hstep ts a' l' b' (List.mem_cons_of_mem _ hmem))
      (before ++ [(a, l, b)]) (hstep before a l b List.mem_cons_self hs hP)
    rw [List.append_assoc] at hnext
    exact hnext

/-- Each step of a run ends a run of its own: the one that led to it. -/
theorem Path.split {p : List (ℓ × σ)} (h : Path step s p) {pre post : List (σ × ℓ × σ)}
    {t : σ × ℓ × σ} (hsplit : steps s p = pre ++ t :: post) :
    ∃ q, Path step s q ∧ steps s q = pre ∧ last s q = t.1 := by
  induction h generalizing pre with
  | nil s => simp [steps] at hsplit
  | @cons a b l p hs _ ih =>
    cases pre with
    | nil =>
      obtain ⟨rfl, -⟩ := List.cons.inj hsplit
      exact ⟨[], .nil a, rfl, rfl⟩
    | cons u pre =>
      obtain ⟨rfl, hrest⟩ := List.cons.inj hsplit
      obtain ⟨q, hq, hsteps, hlast⟩ := ih hrest
      exact ⟨(l, b) :: q, .cons hs hq, by rw [steps, hsteps], hlast⟩

/-- A run that reaches `P` enters it in one of its steps. -/
theorem exists_entering {P : σ → Prop} {p : List (ℓ × σ)} {s : σ} (h0 : ¬ P s)
    (hP : ∃ c ∈ states s p, P c) : ∃ t ∈ steps s p, ¬ P t.1 ∧ P t.2.2 := by
  induction p generalizing s with
  | nil =>
    obtain ⟨c, hc, hPc⟩ := hP
    exact absurd (List.mem_singleton.mp hc ▸ hPc) h0
  | cons a p ih =>
    obtain ⟨c, hc, hPc⟩ := hP
    by_cases hnext : P a.2
    · exact ⟨(s, a.1, a.2), List.mem_cons_self, h0, hnext⟩
    · have hc' : c ∈ states a.2 p := by
        rcases List.mem_cons.mp hc with rfl | hc
        · exact absurd hPc h0
        · exact hc
      obtain ⟨t, ht, henter⟩ := ih hnext ⟨c, hc', hPc⟩
      exact ⟨t, List.mem_cons_of_mem _ ht, henter⟩

/-- The run that a list of labels makes, as far as it goes. -/
def trace (step : σ → ℓ → Option σ) : σ → List ℓ → List (ℓ × σ)
  | _, [] => []
  | s, l :: ls =>
      match step s l with
      | some s' => (l, s') :: trace step s' ls
      | none => []

theorem path_trace (s : σ) (ls : List ℓ) : Path step s (trace step s ls) := by
  induction ls generalizing s with
  | nil => exact .nil s
  | cons l ls ih =>
    rw [trace]
    split
    · rename_i s' hs
      exact .cons hs (ih s')
    · exact .nil s

/-- `P` is absorbing along a run exactly when no step of the run leaves
it: a later state can only lose `P` in a step taken from a state that
has it. -/
theorem Path.absorbing_iff {P : σ → Prop} {p : List (ℓ × σ)} (h : Path step s p) :
    (states s p).Pairwise (fun a b => P a → P b)
      ↔ ∀ t ∈ steps s p, P t.1 → P t.2.2 := by
  have hchain : (states s p).IsChain (fun a b => P a → P b)
      ↔ ∀ t ∈ steps s p, P t.1 → P t.2.2 := by
    induction h with
    | nil => simp [states, steps]
    | @cons a b l p' hs hp ih =>
      have hrec : states a ((l, b) :: p') = a :: states b p' := rfl
      rw [hrec]
      constructor
      · intro hc t ht
        have hc' := List.isChain_cons_cons.mp hc
        rcases List.mem_cons.mp ht with rfl | ht
        · exact hc'.1
        · exact ih.mp hc'.2 t ht
      · intro hall
        refine List.isChain_cons_cons.mpr ⟨hall (a, l, b) (by simp [steps]), ?_⟩
        exact ih.mpr fun t ht => hall t (by simp [steps, ht])
  have : IsTrans σ (fun a b => P a → P b) := ⟨fun _ _ _ hab hbc ha => hbc (hab ha)⟩
  rw [← hchain, List.isChain_iff_pairwise]

/-! ## History variables -/

section Ghost
variable {γ : Type}

/-- The machine with a history variable: every step updates it, none
reads it. -/
def ghost (step : σ → ℓ → Option σ) (upd : σ → γ → ℓ → γ) (c : σ × γ) (l : ℓ) :
    Option (σ × γ) :=
  (step c.1 l).map fun s' => (s', upd c.1 c.2 l)

/-- A run with the values the history variable takes. -/
def withGhost (upd : σ → γ → ℓ → γ) : σ → γ → List (ℓ × σ) → List (ℓ × σ × γ)
  | _, _, [] => []
  | s, g, (l, s') :: p => (l, s', upd s g l) :: withGhost upd s' (upd s g l) p

theorem ghost_eq_some {upd : σ → γ → ℓ → γ} {c c' : σ × γ} {l : ℓ} :
    ghost step upd c l = some c' ↔ step c.1 l = some c'.1 ∧ c'.2 = upd c.1 c.2 l := by
  obtain ⟨a, g⟩ := c'
  simp only [ghost, Option.map_eq_some_iff, Prod.mk.injEq]
  constructor
  · rintro ⟨b, hb, rfl, rfl⟩
    exact ⟨hb, rfl⟩
  · rintro ⟨ha, rfl⟩
    exact ⟨a, ha, rfl, rfl⟩

/-- Every run carries a history variable. -/
theorem Path.ghost {upd : σ → γ → ℓ → γ} {p : List (ℓ × σ)} (h : Path step s p) (g : γ) :
    Path (ghost step upd) (s, g) (withGhost upd s g p) := by
  induction h generalizing g with
  | nil s => exact .nil (s, g)
  | cons hs _ ih => exact .cons (ghost_eq_some.mpr ⟨hs, rfl⟩) (ih _)

end Ghost

/-! ## Machines that come to an end -/

/-- If good states stay good, and from every good state that is not final
some admissible step leads down a well-founded measure, then every good
state can be driven to a final one. -/
theorem finishes_of_progress {α : Type} [LT α] [WellFoundedLT α] (Good Final : σ → Prop)
    (μ : σ → α) (hgood : ∀ a l b, Good a → ok a l → step a l = some b → Good b)
    (hprogress : ∀ a, Good a →
      Final a ∨ ∃ l b, ok a l ∧ step a l = some b ∧ μ b < μ a)
    {s : σ} (hs : Good s) : ∃ t, Reach step ok s t ∧ Final t := by
  induction hμ : μ s using WellFoundedLT.induction generalizing s with
  | _ m ih =>
    rcases hprogress s hs with hfin | ⟨l, b, hok, hb, hlt⟩
    · exact ⟨s, .refl, hfin⟩
    · obtain ⟨t, ht, hfin⟩ := ih (μ b) (hμ ▸ hlt) (hgood s l b hs hok hb) rfl
      exact ⟨t, (Reach.single hok hb).trans ht, hfin⟩

/-- If every admissible step that changes the state leads down a
well-founded measure, an infinite run changes it only finitely often. -/
theorem comes_to_rest {α : Type} [LT α] [WellFoundedLT α] (μ : σ → α)
    (hdown : ∀ a l b, ok a l → step a l = some b → b ≠ a → μ b < μ a) {run : Nat → σ}
    (hrun : ∀ n, ∃ l, ok (run n) l ∧ step (run n) l = some (run (n + 1))) :
    ∃ n, ∀ m, n ≤ m → run m = run n := by
  -- a state of the run whose measure is minimal
  obtain ⟨-, ⟨n, rfl⟩, hmin⟩ :=
    WellFounded.has_min (wellFounded_lt : WellFounded ((· < ·) : α → α → Prop))
      (Set.range (μ ∘ run)) ⟨_, 0, rfl⟩
  refine ⟨n, fun m hm => ?_⟩
  induction m, hm using Nat.le_induction with
  | base => rfl
  | succ m _ ih =>
    obtain ⟨l, hok, hs⟩ := hrun m
    by_contra hne
    have hlt := hdown _ l _ hok hs (by rwa [ih])
    rw [ih] at hlt
    exact hmin _ ⟨m + 1, rfl⟩ hlt

end Runs
