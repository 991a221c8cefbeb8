import MegaVM.Paging.Books

/-!
# Copying and zapping keep the books, and flush before they free

What holds between any two steps: the counters are right, a range that is
copied to is empty and belongs to one thread, and a TLB has a page of a
place only while the entry is there or the page waits in a batch whose
range covers the place.
-/

set_option linter.unusedSectionVars false

namespace MegaVM

namespace Vm

open Function

variable {M T : Type} {lim : Nat} [DecidableEq M] [DecidableEq T] [Fintype M] [Fintype T]

/-- There is a slot left in `active`. -/
def MmuGather.Room (g : MmuGather M) : Prop := g.active.pages.length < g.active.max

/-- A flush of the whole address space is never skipped. -/
def MmuGather.Armed (g : MmuGather M) : Prop := g.fullmm = true → g.stop ≠ 0

/-- What a function relies on between two steps. -/
def JobOk (s : Vm M T lim) : Job M lim → Prop
  | .idle => True
  | .copying run => run.src ≠ run.dst ∧
      ∀ a : Fin lim, run.walk.addr ≤ a → a < run.walk.stop → s.pte (run.dst, a) = .none
  | .zapping g none => g.Ok ∧ g.Armed ∧ g.Room
  | .zapping g (some run) =>
      g.Ok ∧ g.Armed ∧ (g.Room ∨ run.force = true ∧ run.pc ≠ .loop) ∧
        (run.pc = .unlocked → run.rss = fun _ => 0)
  | .finishing g => g.Ok

/-- The TLBs may still have the page for the place, and the function flushes
them before it frees the page. -/
def Job.Waits (i : Place M lim) (p : PageId) : Job M lim → Prop
  | .zapping g none => g.mm = i.1 ∧ g.Covers i.2 ∧ p ∈ g.pages
  | .zapping g (some run) =>
      g.mm = i.1 ∧ g.Covers i.2 ∧ p ∈ g.pages ∧ ¬(run.force = true ∧ run.pc = .unlocked)
  | _ => False

/-- Nothing is reported, and no entry is there to be. -/
structure Quiet (s : Vm M T lim) : Prop where
  bug : s.bug = false
  unreported : ∀ i, (s.pte i).reported = false

/-- `clean` is whether the entries were good at first. -/
structure Inv (clean : Prop) (s : Vm M T lim) : Prop where
  balanced : s.debt = 0
  jobs : ∀ t, s.JobOk (s.tasks t).job
  /-- Two threads do not copy from or to one address space. -/
  apart : ∀ t t' m, t ≠ t' → (s.tasks t).job.copies m = true → (s.tasks t').job.copies m = false
  tlb : ∀ i p, p ∈ s.tlb i →
    (s.pte i).normalPage = some p ∨ ∃ t, (s.tasks t).job.Waits i p
  quiet : clean → s.Quiet

variable {s s' : Vm M T lim} {clean : Prop} {t : T} {job : Job M lim}

theorem Quiet.congr (h : s.Quiet) (hbug : s'.bug = s.bug) (hpte : s'.pte = s.pte) : s'.Quiet :=
  ⟨hbug.trans h.bug, fun i => by rw [hpte, h.unreported]⟩

theorem Quiet.not_bad (h : s.Quiet) {i : Place M lim} {pfn : PageId} {backing : Backing}
    {bits : PteBits} (hpte : s.pte i = .present pfn backing bits) : backing ≠ .bad := by
  rintro rfl
  have hreported := h.unreported i
  rw [hpte] at hreported
  cases hreported

/-- An entry is exchanged. -/
theorem Quiet.update (h : s.Quiet) {i : Place M lim} {x : Pte} (hbug : s'.bug = false)
    (hpte : s'.pte = update s.pte i x) (hx : x.reported = false) : s'.Quiet := by
  refine ⟨hbug, fun j => ?_⟩
  rw [hpte]
  by_cases hj : j = i
  · rw [hj, update_self, hx]
  · rw [update_of_ne hj, h.unreported]

/-- A page waits in a batch of the thread. -/
theorem Job.Waits.mem_refs {i : Place M lim} {p : PageId} (h : job.Waits i p) : p ∈ job.refs := by
  cases job with
  | zapping g run =>
      cases run with
      | none => exact h.2.2
      | some run => exact h.2.2.1
  | _ => exact h.elim

theorem setJob_job (s : Vm M T lim) (t : T) (job : Job M lim) (t' : T) :
    ((s.setJob t job).tasks t').job = if t' = t then job else (s.tasks t').job := by
  show (update s.tasks t { s.tasks t with job } t').job = _
  by_cases ht : t' = t
  · subst ht
    rw [update_self, if_pos rfl]
  · rw [update_of_ne ht, if_neg ht]

/-- What another thread relies on stays, where an entry only comes into a
range that this thread copies to. -/
theorem JobOk.mono (h : s.JobOk job)
    (hpte : ∀ i, job.copies i.1 = true → s.pte i = .none → s'.pte i = .none) : s'.JobOk job := by
  cases job with
  | copying run =>
      refine ⟨h.1, fun a hle hlt => hpte (run.dst, a) ?_ (h.2 a hle hlt)⟩
      simp [Job.copies]
  | zapping g run =>
      cases run with
      | none => exact h
      | some run => exact h
  | finishing g => exact h
  | idle => trivial

/-- The rule for a step of a thread. -/
theorem Inv.ofJob {w : Vm M T lim} (h : s.Inv clean)
    (htasks : ∀ t', (w.tasks t').job = (s.tasks t').job)
    (hbal : w.debt + jobClaims (s.tasks t).job = jobClaims job)
    (hjob : w.JobOk job)
    (hapart : ∀ m, job.copies m = true → (s.tasks t).job.copies m = true ∨ s.Unused m)
    (hpte : ∀ i, (s.tasks t).job.copies i.1 = false → s.pte i = .none → w.pte i = .none)
    (htlb : ∀ i p, p ∈ w.tlb i → (w.pte i).normalPage = some p ∨ job.Waits i p ∨
      ∃ t', t' ≠ t ∧ (s.tasks t').job.Waits i p)
    (hquiet : s.Quiet → w.Quiet) : (w.setJob t job).Inv clean := by
  have hother : ∀ t', t' ≠ t → ((w.setJob t job).tasks t').job = (s.tasks t').job := by
    intro t' ht
    rw [setJob_job, if_neg ht, htasks t']
  have hmine : ((w.setJob t job).tasks t).job = job := by rw [setJob_job, if_pos rfl]
  constructor
  · rw [debt_setJob, htasks t, hbal, sub_self]
  · intro t'
    by_cases ht : t' = t
    · rw [ht, hmine]
      exact hjob
    · rw [hother t' ht]
      refine (h.jobs t').mono fun i hcopies hnone => hpte i ?_ hnone
      exact h.apart t' t i.1 ht hcopies
  · intro t₁ t₂ m hne hcopies
    by_cases h₁ : t₁ = t
    · subst h₁
      rw [hmine] at hcopies
      rw [hother t₂ (Ne.symm hne)]
      rcases hapart m hcopies with hold | hunused
      · exact h.apart t₁ t₂ m hne hold
      · exact hunused t₂
    · rw [hother t₁ h₁] at hcopies
      by_cases h₂ : t₂ = t
      · subst h₂
        rw [hmine]
        cases hnew : job.copies m with
        | false => rfl
        | true =>
            rcases hapart m hnew with hold | hunused
            · rw [h.apart t₁ t₂ m hne hcopies] at hold
              cases hold
            · rw [hunused t₁] at hcopies
              cases hcopies
      · rw [hother t₂ h₂]
        exact h.apart t₁ t₂ m hne hcopies
  · intro i p hp
    rcases htlb i p hp with hmaps | hwaits | ⟨t', ht, hwaits⟩
    · exact .inl hmaps
    · exact .inr ⟨t, by rw [hmine]; exact hwaits⟩
    · exact .inr ⟨t', by rw [hother t' ht]; exact hwaits⟩
  · intro hclean
    obtain ⟨hbug, hpte⟩ := hquiet (h.quiet hclean)
    exact ⟨hbug, hpte⟩

/-- Who has a page that is in a TLB: the entry, this thread, or another. -/
theorem Inv.tlb_cases (h : s.Inv clean) (t : T) {i : Place M lim} {p : PageId} (hp : p ∈ s.tlb i) :
    (s.pte i).normalPage = some p ∨ (s.tasks t).job.Waits i p ∨
      ∃ t', t' ≠ t ∧ (s.tasks t').job.Waits i p := by
  rcases h.tlb i p hp with hmaps | ⟨t', hwaits⟩
  · exact .inl hmaps
  · by_cases ht : t' = t
    · subst ht
      exact .inr (.inl hwaits)
    · exact .inr (.inr ⟨t', ht, hwaits⟩)

/-- The rule for a step that leaves the entries alone. -/
theorem Inv.ofJob_same (h : s.Inv clean) {w : Vm M T lim}
    (htasks : ∀ t', (w.tasks t').job = (s.tasks t').job)
    (hpte : w.pte = s.pte) (htlb : w.tlb = s.tlb) (hbug : w.bug = s.bug)
    (hbal : w.debt + jobClaims (s.tasks t).job = jobClaims job) (hjob : s.JobOk job)
    (hapart : ∀ m, job.copies m = true → (s.tasks t).job.copies m = true ∨ s.Unused m)
    (hwaits : ∀ i p, (s.tasks t).job.Waits i p → job.Waits i p) : (w.setJob t job).Inv clean := by
  refine h.ofJob htasks hbal (hjob.mono fun i _ hnone => by rw [hpte, hnone]) hapart
    (fun i _ hnone => by rw [hpte, hnone]) (fun i p hp => ?_) (fun hq => hq.congr hbug hpte)
  rw [htlb] at hp
  rw [hpte]
  exact (h.tlb_cases t hp).imp_right fun hor => hor.imp_left (hwaits i p)

/-- The rule for a step of the others. -/
theorem Inv.env (h : s.Inv clean) (htasks : ∀ t, (s'.tasks t).job = (s.tasks t).job)
    (hbal : s'.debt = 0) (hpte : ∀ i, s.pte i = .none → s'.pte i = .none)
    (htlb : ∀ i p, p ∈ s'.tlb i → (s'.pte i).normalPage = some p ∨
      p ∈ s.tlb i ∧ (s'.pte i).normalPage = (s.pte i).normalPage)
    (hquiet : s.Quiet → s'.Quiet) : s'.Inv clean := by
  constructor
  · exact hbal
  · intro t
    rw [htasks t]
    exact (h.jobs t).mono fun i _ hnone => hpte i hnone
  · intro t t' m hne
    rw [htasks t, htasks t']
    exact h.apart t t' m hne
  · intro i p hp
    rcases htlb i p hp with hmaps | ⟨hold, hsame⟩
    · exact .inl hmaps
    · rcases h.tlb i p hold with hmaps | ⟨t, hwaits⟩
      · exact .inl (hsame.trans hmaps)
      · exact .inr ⟨t, by rw [htasks t]; exact hwaits⟩
  · exact fun hclean => hquiet (h.quiet hclean)

end Vm

end MegaVM
