import MegaVM.Paging.Counted

/-!
# What a turn of each function keeps

The steps of the others, `copy_pte_range`, `zap_pte_range` and
`tlb_finish_mmu`, each with the rule for it, and the run.
-/

set_option linter.unusedSectionVars false

namespace MegaVM

namespace Vm

open Function

variable {M T : Type} {lim : Nat} [DecidableEq M] [DecidableEq T] [Fintype M] [Fintype T]
variable {s w : Vm M T lim} {clean : Prop} {t : T}

/-! ## The others -/

/-- An entry is used, and maps what it did. -/
theorem Inv.setPte (h : s.Inv clean) {i : Place M lim} {x : Pte} (hpte : s.pte i ≠ .none)
    (hclaims : pteClaims s.anon i x = pteClaims s.anon i (s.pte i))
    (hpage : x.normalPage = (s.pte i).normalPage)
    (hreported : x.reported = (s.pte i).reported) : (s.setPte i x).Inv clean := by
  refine h.env (fun _ => rfl) ?_ (fun j hnone => ?_) (fun j p hp => .inr ⟨hp, ?_⟩)
    fun hq => hq.update hq.bug rfl (hreported.trans (hq.unreported i))
  · rw [debt_setPte, hclaims, h.balanced]
    abel
  · have hj : j ≠ i := fun hj => hpte (hj ▸ hnone)
    show update s.pte i x j = .none
    rw [update_of_ne hj, hnone]
  · show (update s.pte i x j).normalPage = _
    by_cases hj : j = i
    · subst hj
      rw [update_self, hpage]
    · rw [update_of_ne hj]

theorem Inv.tlbFill (h : s.Inv clean) {i : Place M lim} {p : PageId}
    (hpage : (s.pte i).normalPage = some p) :
    Inv clean { s with tlb := update s.tlb i (p :: s.tlb i) } := by
  refine h.env (fun _ => rfl) h.balanced (fun _ hnone => hnone) (fun j q hq => ?_)
    fun hq => hq.congr rfl rfl
  change q ∈ update s.tlb i (p :: s.tlb i) j at hq
  by_cases hj : j = i
  · subst hj
    rw [update_self] at hq
    rcases List.mem_cons.mp hq with rfl | hq
    · exact .inl hpage
    · exact .inr ⟨hq, rfl⟩
  · rw [update_of_ne hj] at hq
    exact .inr ⟨hq, rfl⟩

/-- The others take or drop a reference. -/
theorem Inv.others (h : s.Inv clean) (p : PageId) (k : Int) (n : Nat)
    (hn : (n : Int) = s.others p + k) :
    Inv clean { s.addCount p k with others := update s.others p n } :=
  h.env (fun _ => rfl) ((debt_others s p k n hn).trans h.balanced) (fun _ hnone => hnone)
    (fun _ _ hp => .inr ⟨hp, rfl⟩) fun hq => hq.congr rfl rfl

theorem syncMmRss_job (s : Vm M T lim) (t t' : T) :
    ((s.syncMmRss t).tasks t').job = (s.tasks t').job := by
  show (update s.tasks t { s.tasks t with rssStat := fun _ => 0 } t').job = _
  by_cases ht : t' = t
  · subst ht
    rw [update_self]
  · rw [update_of_ne ht]

theorem Inv.syncMmRss (h : s.Inv clean) (t : T) : (s.syncMmRss t).Inv clean :=
  h.env (s.syncMmRss_job t) ((debt_syncMmRss s t).trans h.balanced) (fun _ hnone => hnone)
    (fun _ _ hp => .inr ⟨hp, rfl⟩) fun hq => hq.congr rfl rfl

/-- Only the counters change. -/
theorem addMmRssVec_frame (s : Vm M T lim) (t : T) (m : M) (rss : RssKind → Int) :
    (∀ t', ((s.addMmRssVec t m rss).tasks t').job = (s.tasks t').job) ∧
      (s.addMmRssVec t m rss).pte = s.pte ∧ (s.addMmRssVec t m rss).tlb = s.tlb ∧
      (s.addMmRssVec t m rss).bug = s.bug := by
  unfold addMmRssVec
  split
  · exact ⟨s.syncMmRss_job t, rfl, rfl, rfl⟩
  · exact ⟨fun _ => rfl, rfl, rfl, rfl⟩

/-! ## `copy_pte_range` -/

theorem jobClaims_idle : jobClaims (.idle : Job M lim) = 0 := sub_self _

theorem jobClaims_copying (run : CopyRun M lim) :
    jobClaims (.copying run) = -rssClaims run.dst run.rss := zero_sub _

theorem jobClaims_zapping (g : MmuGather M) (run : ZapRun lim) :
    jobClaims (.zapping g (some run)) = pageClaims g.pages - rssClaims g.mm run.rss := rfl

theorem jobClaims_between (g : MmuGather M) :
    jobClaims (.zapping g none : Job M lim) = pageClaims g.pages := sub_zero _

theorem jobClaims_finishing (g : MmuGather M) :
    jobClaims (.finishing g : Job M lim) = pageClaims g.pages := sub_zero _

/-- What `copy_one_pte` does to an empty entry. -/
structure Copied (s : Vm M T lim) (dst : Place M lim) (rss : RssKind → Int)
    (r : SwpEntry × Vm M T lim × (RssKind → Int)) : Prop where
  tasks : r.2.1.tasks = s.tasks
  tlb : r.2.1.tlb = s.tlb
  quiet : s.Quiet → r.2.1.Quiet
  balance : r.2.1.debt + rssClaims dst.1 r.2.2 = s.debt + rssClaims dst.1 rss
  maps : ∀ i p, (s.pte i).normalPage = some p → (r.2.1.pte i).normalPage = some p
  /-- Only the copy comes in. -/
  nones : ∀ i, i ≠ dst ∨ r.1 ≠ 0 → s.pte i = .none → r.2.1.pte i = .none

/-- The rule for the copy itself. -/
theorem Copied.setPte {s₁ : Vm M T lim} {dst : Place M lim} {rss rss' : RssKind → Int} {x : Pte}
    (hdst : s.pte dst = .none) (htasks : s₁.tasks = s.tasks) (htlb : s₁.tlb = s.tlb)
    (hquiet : s.Quiet → s₁.Quiet ∧ x.reported = false)
    (hbal : s₁.debt + rssClaims dst.1 rss'
      = s.debt + rssClaims dst.1 rss + pteClaims s₁.anon dst x)
    (hpage : ∀ i, (s₁.pte i).normalPage = (s.pte i).normalPage)
    (hnone : ∀ i, s.pte i = .none → s₁.pte i = .none) :
    Copied s dst rss (0, s₁.setPte dst x, rss') := by
  refine ⟨htasks, htlb, fun hq => ?_, ?_, fun i p hp => ?_, fun i hi hpte => ?_⟩
  · obtain ⟨hq₁, hx⟩ := hquiet hq
    exact hq₁.update hq₁.bug rfl hx
  · show (s₁.setPte dst x).debt + rssClaims dst.1 rss' = _
    have hold : pteClaims s₁.anon dst (s₁.pte dst) = 0 := by
      rw [hnone dst hdst]
      rfl
    rw [debt_setPte, hold, add_zero, sub_add_eq_add_sub, hbal, add_sub_cancel_right]
  · have hi : i ≠ dst := fun hi => by
      rw [hi, hdst] at hp
      cases hp
    show (update s₁.pte dst x i).normalPage = some p
    rw [update_of_ne hi, hpage, hp]
  · have hi : i ≠ dst := hi.resolve_right fun hz => hz rfl
    show update s₁.pte dst x i = .none
    rw [update_of_ne hi, hnone i hpte]

/-- An entry of the parent is made read-only. -/
theorem wrprotect_src {src : Place M lim} {x y : Pte} (hsrc : s.pte src = x)
    (hx : x ≠ .none) (hclaims : pteClaims s.anon src y = pteClaims s.anon src x)
    (hpage : y.normalPage = x.normalPage) :
    (s.setPte src y).debt = s.debt ∧
      (∀ i, ((s.setPte src y).pte i).normalPage = (s.pte i).normalPage) ∧
      ∀ i, s.pte i = .none → (s.setPte src y).pte i = .none := by
  refine ⟨?_, fun i => ?_, fun i hnone => ?_⟩
  · rw [debt_setPte, hclaims, hsrc, add_sub_cancel_right]
  · show (update s.pte src y i).normalPage = _
    by_cases hi : i = src
    · subst hi
      rw [update_self, hpage, hsrc]
    · rw [update_of_ne hi]
  · have hi : i ≠ src := by
      rintro rfl
      exact hx (hsrc.symm.trans hnone)
    show update s.pte src y i = .none
    rw [update_of_ne hi, hnone]

/-- The same for a present entry of a COW mapping. -/
theorem wrprotect_cow {src : Place M lim} {pfn : PageId} {backing : Backing} {bits : PteBits}
    (hsrc : s.pte src = .present pfn backing bits) :
    let s₁ := if (s.vma src).isCow = true then
      s.setPte src (.present pfn backing bits.wrprotect) else s
    s₁.tasks = s.tasks ∧ s₁.tlb = s.tlb ∧ (s.Quiet → s₁.Quiet ∧ backing ≠ .bad) ∧
      s₁.debt = s.debt ∧ (∀ i, (s₁.pte i).normalPage = (s.pte i).normalPage) ∧
        ∀ i, s.pte i = .none → s₁.pte i = .none := by
  intro s₁
  by_cases hcow : (s.vma src).isCow = true
  · rw [show s₁ = s.setPte src (.present pfn backing bits.wrprotect) from if_pos hcow]
    refine ⟨rfl, rfl, fun hq => ⟨hq.update hq.bug rfl ?_, hq.not_bad hsrc⟩,
      wrprotect_src hsrc (by simp) ?_ ?_⟩
    · have hbacking := hq.not_bad hsrc
      cases backing <;> first | rfl | contradiction
    · cases backing <;> rfl
    · cases backing <;> rfl
  · rw [show s₁ = s from if_neg hcow]
    exact ⟨rfl, rfl, fun hq => ⟨hq, hq.not_bad hsrc⟩, rfl, fun _ => rfl, fun _ hnone => hnone⟩

theorem copyOnePte_copied (src : Place M lim) {dst : Place M lim} (rss : RssKind → Int)
    (dupFails : Bool) (hdst : s.pte dst = .none) :
    Copied s dst rss (s.copyOnePte src dst rss dupFails) := by
  have hsame : ∀ e, Copied s dst rss (e, s, rss) := fun e =>
    ⟨rfl, rfl, id, rfl, fun _ _ hp => hp, fun _ _ hnone => hnone⟩
  unfold copyOnePte
  cases hsrc : s.pte src with
  | none => exact hsame 0
  | swap e =>
      by_cases hdup : dupFails = true
      · simp only [if_pos hdup]
        exact hsame e
      · simp only [if_neg hdup]
        refine Copied.setPte hdst rfl rfl (fun hq => ⟨hq.congr rfl rfl, rfl⟩) ?_ (fun _ => rfl)
          (fun _ hnone => hnone)
        rw [debt_addSwapCount, rssClaims_addKind, pteClaims]
        abel
  | migration p write =>
      have hadd : rssClaims dst.1 (addKind rss (s.rssKind p) 1)
          = rssClaims dst.1 rss + one (.rss dst.1 (pageKind s.anon p)) := by
        rw [rssClaims_addKind, one_smul, rssKind, pageKind]
      by_cases hcow : (write && (s.vma src).isCow) = true
      · simp only [if_pos hcow]
        obtain ⟨hdebt, hpage, hnone⟩ :=
          wrprotect_src (y := .migration p false) hsrc (by simp) rfl rfl
        refine Copied.setPte hdst rfl rfl (fun hq => ⟨hq.update hq.bug rfl rfl, rfl⟩) ?_ hpage hnone
        rw [hdebt, hadd, ← add_assoc]
        rfl
      · simp only [if_neg hcow]
        refine Copied.setPte hdst rfl rfl (fun hq => ⟨hq, rfl⟩) ?_ (fun _ => rfl)
          (fun _ hnone => hnone)
        rw [hadd, ← add_assoc]
        rfl
  | present pfn backing bits =>
      dsimp only
      have hprotected := wrprotect_cow hsrc
      generalize (if (s.vma src).isCow = true then
        s.setPte src (.present pfn backing bits.wrprotect) else s) = s₁ at hprotected ⊢
      obtain ⟨htasks, htlb, hquiet, hdebt, hpage, hnone⟩ := hprotected
      -- what `vm_normal_page` says of the entry
      cases backing with
      | bad =>
          refine Copied.setPte hdst htasks htlb (fun hq => absurd rfl (hquiet hq).2) ?_ hpage hnone
          show s₁.debt + _ = _
          rw [hdebt, pteClaims, add_zero]
          all_goals simp
      | special =>
          refine Copied.setPte hdst htasks htlb
            (fun hq => ⟨(hquiet hq).1.congr (Bool.or_false _) rfl, rfl⟩) ?_ hpage hnone
          show s₁.debt + _ = _
          rw [hdebt, pteClaims, add_zero]
          all_goals simp
      | page =>
          refine Copied.setPte hdst htasks htlb
            (fun hq => ⟨(hquiet hq).1.congr (Bool.or_false _) rfl, rfl⟩) ?_ hpage hnone
          rw [debt_addMapcount, debt_getPage, rssClaims_addKind, pteClaims]
          show s₁.debt + _ + _ + (_ + _ • one (.rss dst.1 (pageKind s₁.anon pfn)))
            = _ + (_ + _ + one (.rss dst.1 (pageKind s₁.anon pfn)))
          rw [hdebt]
          abel

/-- A turn of `copy_pte_range`. -/
theorem Inv.copyPteRange (h : s.Inv clean) {run : CopyRun M lim}
    (hrun : (s.tasks t).job = .copying run) (resched dupFails contFails : Bool) :
    (s.copyPteRange t run resched dupFails contFails).Inv clean := by
  obtain ⟨hne, hrange⟩ : run.src ≠ run.dst ∧ ∀ a : Fin lim, run.walk.addr ≤ a →
      a < run.walk.stop → s.pte (run.dst, a) = .none := by
    have hjob := h.jobs t
    rwa [hrun] at hjob
  have hsame : ∀ run' : CopyRun M lim, run'.src = run.src → run'.dst = run.dst → ∀ m,
      (Job.copying run').copies m = true → (s.tasks t).job.copies m = true ∨ s.Unused m := by
    intro run' hsrc hdst m hcopies
    left
    rw [hrun]
    rwa [Job.copies, hsrc, hdst] at hcopies
  have hwaits : ∀ (job : Job M lim) i p, (s.tasks t).job.Waits i p → job.Waits i p := by
    intro job i p hw
    rw [hrun] at hw
    exact hw.elim
  -- a step that leaves the entries alone
  have hturn : ∀ run' : CopyRun M lim, run'.src = run.src → run'.dst = run.dst →
      run.walk.addr ≤ run'.walk.addr → run'.walk.stop = run.walk.stop → run'.rss = run.rss →
      (s.setJob t (.copying run')).Inv clean := by
    intro run' hsrc hdst haddr hstop hrss
    refine h.ofJob_same (fun _ => rfl) rfl rfl rfl ?_ ?_ (hsame run' hsrc hdst) (hwaits _)
    · rw [h.balanced, hrun, jobClaims_copying, jobClaims_copying, hdst, hrss, zero_add]
    · refine ⟨hsrc ▸ hdst ▸ hne, fun a hle hlt => ?_⟩
      rw [hdst]
      exact hrange a (haddr.trans hle) (hstop ▸ hlt)
  have hadded : (s.addMmRssVec t run.dst run.rss).debt + jobClaims (s.tasks t).job = 0 := by
    rw [debt_addMmRssVec, h.balanced, hrun, jobClaims_copying, zero_add, add_neg_cancel]
  obtain ⟨htasks, hpte, htlb, hbug⟩ := addMmRssVec_frame s t run.dst run.rss
  have hidle : ((s.addMmRssVec t run.dst run.rss).setJob t .idle).Inv clean :=
    h.ofJob_same htasks hpte htlb hbug (hadded.trans jobClaims_idle.symm) trivial
      (fun m hcopies => by cases hcopies) (hwaits _)
  unfold Vm.copyPteRange
  split
  · dsimp only
    split
    · exact hidle
    · split
      · exact hidle
      · refine h.ofJob_same htasks hpte htlb hbug ?_ ⟨hne, hrange⟩ (hsame _ rfl rfl) (hwaits _)
        rw [hadded, jobClaims_copying, rssClaims_zero, neg_zero]
  · split
    · rename_i hlt
      split
      · exact hturn _ rfl rfl le_rfl rfl rfl
      · dsimp only
        split
        · exact hturn _ rfl rfl (Nat.le_succ _) rfl rfl
        · have hdst : s.pte (run.dst, run.walk.here hlt) = .none := hrange _ le_rfl hlt
          have hcopied :=
            copyOnePte_copied (run.src, run.walk.here hlt) run.rss dupFails hdst
          revert hcopied
          generalize s.copyOnePte _ _ run.rss dupFails = r
          obtain ⟨entry, w, rss⟩ := r
          rintro ⟨htasks, htlb, hquiet, hbal, hmaps, hnones⟩
          have hbal' : w.debt + jobClaims (s.tasks t).job = -rssClaims run.dst rss := by
            rw [h.balanced, zero_add] at hbal
            rw [hrun, jobClaims_copying, ← hbal]
            abel
          have hrule : ∀ run' : CopyRun M lim, run'.src = run.src → run'.dst = run.dst →
              run'.rss = rss → w.JobOk (.copying run') →
                (w.setJob t (.copying run')).Inv clean := by
            intro run' hsrc hdst' hrss hok
            refine h.ofJob (fun t' => by rw [htasks]) ?_ hok (hsame run' hsrc hdst')
              (fun i hi hnone => ?_) (fun i p hp => ?_) hquiet
            · rw [hbal', jobClaims_copying, hdst', hrss]
            · refine hnones i (.inl fun hi' => ?_) hnone
              rw [hi', hrun] at hi
              simp [Job.copies] at hi
            · rw [htlb] at hp
              rcases h.tlb_cases t hp with hpage | hmine | hother
              · exact .inl (hmaps i p hpage)
              · exact .inr (.inl (hwaits _ i p hmine))
              · exact .inr (.inr hother)
          dsimp only
          split
          · rename_i hentry
            refine hrule _ rfl rfl rfl ⟨hne, fun a hle ha => ?_⟩
            exact hnones _ (.inr hentry) (hrange a hle ha)
          · refine hrule _ rfl rfl rfl ⟨hne, fun a hle ha => ?_⟩
            refine hnones _ (.inl fun hi => ?_) (hrange a (Nat.le_of_succ_le hle) ha)
            have ha' : (a : Nat) = run.walk.addr := congrArg (fun i => (i.2 : Nat)) hi
            have hnext : run.walk.addr + 1 ≤ a := hle
            omega
    · exact hturn _ rfl rfl le_rfl rfl rfl

end Vm

end MegaVM
