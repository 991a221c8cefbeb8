import MegaVM.System.Deadlock

/-!
# Every run comes to an end

A healthy run of the two sides cannot go on for ever, whatever the order
of its steps: each step that changes something goes down a lexicographic
measure, and not only the steps that lead on. What the measure of
`MegaVM.System.Deadlock` leaves out is what breaks and is flushed: a
queue pair breaks once, and a receive that is flushed stays flushed,
since its completion stops the handler.
-/

namespace MegaVM

open TestState

namespace System

/-! ## The measure of all steps -/

/-- A queue pair that can still break. -/
def intact (e : Endpoint) : Nat := (!e.qpErr).toNat

/-- A work request: its bytes, and what its completion sets free. -/
def workCost (p : Posted) : Nat := p.sge.length.toNat - p.moved + 3

/-- A completion; handling a successful one may post a receive. -/
def wcCost (wc : Wc) : Nat := if wc.status = .success then 6 else 1

/-- What the CQ handler and a flush of the receives have before them. -/
def lineCost (e : Endpoint) : Nat :=
  (e.cq.queue.map wcCost).sum + 4 * e.rq + 2 * e.cq.pending + e.draining.toNat

def breaks (s : System) : Nat := intact s.server.ep + intact s.client.ep

def works (s : System) : Nat :=
  (s.server.ep.sq.map workCost).sum + (s.client.ep.sq.map workCost).sum +
    wireCost s.advert + wireCost s.goAhead

def lines (s : System) : Nat := lineCost s.server.ep + lineCost s.client.ep

/-- What is left to do in all: statements, CM events, breaks, transfers,
completions. -/
def totalMeasure (N : Nat) (s : System) : Nat ×ₗ Nat ×ₗ Nat ×ₗ Nat ×ₗ Nat :=
  toLex (rank N s, toLex (events s, toLex (breaks s, toLex (works s, lines s))))

section Measure
variable {N : Nat} {s s' : System}

theorem totalMeasure_of_rank (h : rank N s' < rank N s) : totalMeasure N s' < totalMeasure N s :=
  Prod.Lex.toLex_lt_toLex.mpr (.inl h)

theorem totalMeasure_of_events (hr : rank N s' = rank N s) (h : events s' < events s) :
    totalMeasure N s' < totalMeasure N s :=
  Prod.Lex.toLex_lt_toLex.mpr (.inr ⟨hr, Prod.Lex.toLex_lt_toLex.mpr (.inl h)⟩)

theorem totalMeasure_of_breaks (hr : rank N s' = rank N s) (he : events s' = events s)
    (h : breaks s' < breaks s) : totalMeasure N s' < totalMeasure N s :=
  Prod.Lex.toLex_lt_toLex.mpr (.inr ⟨hr, Prod.Lex.toLex_lt_toLex.mpr
    (.inr ⟨he, Prod.Lex.toLex_lt_toLex.mpr (.inl h)⟩)⟩)

theorem totalMeasure_of_works (hr : rank N s' = rank N s) (he : events s' = events s)
    (hb : breaks s' = breaks s) (h : works s' < works s) :
    totalMeasure N s' < totalMeasure N s :=
  Prod.Lex.toLex_lt_toLex.mpr (.inr ⟨hr, Prod.Lex.toLex_lt_toLex.mpr
    (.inr ⟨he, Prod.Lex.toLex_lt_toLex.mpr
      (.inr ⟨hb, Prod.Lex.toLex_lt_toLex.mpr (.inl h)⟩)⟩)⟩)

theorem totalMeasure_of_lines (hr : rank N s' = rank N s) (he : events s' = events s)
    (hb : breaks s' = breaks s) (hw : works s' = works s) (h : lines s' < lines s) :
    totalMeasure N s' < totalMeasure N s :=
  Prod.Lex.toLex_lt_toLex.mpr (.inr ⟨hr, Prod.Lex.toLex_lt_toLex.mpr
    (.inr ⟨he, Prod.Lex.toLex_lt_toLex.mpr
      (.inr ⟨hb, Prod.Lex.toLex_lt_toLex.mpr (.inr ⟨hw, h⟩)⟩)⟩)⟩)

end Measure

/-! ## The steps of an end -/

/-- What a move of an end by itself uses up: a break, a work request, or
some of the handler's line. -/
inductive Spent (e e' : Endpoint) (l : EpLabel) : Prop
  | nothing (heq : e' = e) (hl : l ≠ .complete)
  | broken (h : intact e' < intact e)
  | retired (p : Posted) (rest : List Posted) (hsq : e.sq = p :: rest) (hsq' : e'.sq = rest)
      (herr : e'.qpErr = e.qpErr)
  | line (hsq : e'.sq = e.sq) (herr : e'.qpErr = e.qpErr) (hl : l ≠ .complete)
      (h : lineCost e' < lineCost e)

section Moves
variable {hook : RecvHook} {e e' : Endpoint} {l : EpLabel}

/-- Only a successful completion posts a receive again. -/
theorem drainOne_reposted {cb : IbContext} {wc : Wc} {ret : Int} (h : wc.status ≠ .success) :
    (drainOne hook cb wc ret).reposted = false := by
  unfold drainOne
  cases hst : wc.status with
  | success => exact absurd hst h
  | wrFlushErr => rfl
  | failure => rfl

theorem lineCost_poll {ret : Int} (h : e.step hook (.cqPoll ret) = some e') :
    lineCost e' < lineCost e := by
  obtain ⟨hd, ⟨-, rfl⟩ | ⟨wc, rest, hq, rfl⟩⟩ := Endpoint.step_poll h
  · simp only [lineCost, hd, Bool.toNat_true, Bool.toNat_false]
    omega
  · have hle : Bool.toNat (!(drainOne hook e.cb wc ret).stop) ≤ 1 := Bool.toNat_le _
    simp only [lineCost, hd, hq, List.map_cons, List.sum_cons, Bool.toNat_true, wcCost]
    by_cases hst : wc.status = .success
    · rw [if_pos hst]
      split <;> omega
    · rw [if_neg hst, drainOne_reposted hst]
      simp only [Bool.false_eq_true, if_false]
      omega

/-- Every healthy move of an end uses something up or changes nothing. -/
theorem spent_of_step (hok : l.healthy) (hcm : ∀ event id ret, l ≠ .cm event id ret)
    (hland : ∀ buf byteLen status, l ≠ .land buf byteLen status)
    (h : e.step hook l = some e') : Spent e e' l := by
  cases l with
  | cm event id ret => exact absurd rfl (hcm event id ret)
  | land buf byteLen status => exact absurd rfl (hland buf byteLen status)
  | cqPollErr => exact hok.elim
  | fail => exact hok.elim
  | cqEnter =>
      obtain ⟨hp, hd, rfl⟩ := Endpoint.step_cqEnter h
      refine .line rfl rfl (by simp) ?_
      have hle : Bool.toNat (decide (e.cb.state ≠ error)) ≤ 1 := Bool.toNat_le _
      simp only [lineCost, hd, Bool.toNat_false]
      omega
  | cqPoll ret =>
      have hcost := lineCost_poll h
      obtain ⟨-, ⟨-, rfl⟩ | ⟨wc, rest, -, rfl⟩⟩ := Endpoint.step_poll h
      · exact .line rfl rfl (by simp) hcost
      · exact .line rfl rfl (by simp) hcost
  | complete =>
      obtain ⟨p, rest, hsq, -, -, rfl⟩ := Endpoint.step_complete h
      exact .retired p rest hsq rfl rfl
  | flush =>
      obtain ⟨p, rest, hsq, -, rfl⟩ := Endpoint.step_flush h
      exact .retired p rest hsq rfl rfl
  | flushRecv =>
      obtain ⟨hrq, -, rfl⟩ := Endpoint.step_flushRecv h
      refine .line rfl rfl (by simp) ?_
      -- the completion may queue one more invocation of the handler
      simp only [lineCost, Cq.add, List.map_append, List.sum_append, List.map_cons, List.map_nil,
        List.sum_cons, List.sum_nil, wcCost, reduceCtorEq, if_false]
      split <;> omega
  | breakQp =>
      simp only [Endpoint.step, Option.some.injEq] at h
      subst h
      cases herr : e.qpErr with
      | true => exact .nothing (by rw [← herr]) (by simp)
      | false => exact .broken (by simp [intact, herr])

/-- The SEND that completes frees its wire for the next. -/
theorem wireAfter_cost (e : Endpoint) (wire : Wire) (l : EpLabel) :
    wireCost (e.wireAfter wire l) ≤ wireCost wire + 2 := by
  cases l with
  | complete =>
      rw [Endpoint.wireAfter]
      split
      · exact Nat.le_add_left 2 _
      · exact Nat.le_add_right _ 2
  | _ => exact Nat.le_add_right _ 2

theorem wireAfter_eq (e : Endpoint) (wire : Wire) (hl : l ≠ .complete) :
    e.wireAfter wire l = wire := by
  cases l with
  | complete => exact absurd rfl hl
  | _ => rfl

end Moves

/-! ## The steps of the two -/

section Steps
variable {N : Nat} {s s' : System}

/-- **Every step that changes something uses something up.** -/
theorem step_totalMeasure {l : SysLabel} (hok : Healthy s l) (h : step N s l = some s')
    (hne : s' ≠ s) : totalMeasure N s' < totalMeasure N s := by
  cases l with
  | serverMain inp =>
      obtain ⟨cb, pc, call, c, hm, hs, rfl⟩ := step_serverMain h
      obtain ⟨cb', call', hm', -⟩ := ServerConfig.step_main_call hs
      exact totalMeasure_of_rank (Nat.add_lt_add_right (serverMain_rank hm') _)
  | clientMain inp =>
      obtain ⟨cb, pc, call, ep, hm, -, rfl⟩ := step_clientMain h
      exact totalMeasure_of_rank (Nat.add_lt_add_left (clientMain_rank hm) _)
  | serverCm =>
      obtain ⟨event, rest, c, hhead, hs, rfl⟩ := step_serverCm h
      have hpc := server_pc hs (by simp)
      refine totalMeasure_of_events (by simp [rank, hpc]) ?_
      simp only [events, hhead, List.length_cons]
      omega
  | clientCm =>
      obtain ⟨event, rest, hhead, -, rfl⟩ := step_clientCm h
      refine totalMeasure_of_events rfl ?_
      have hself : (event.toSelf.map eventCost).sum = event.toSelf.length := by
        cases event <;> rfl
      simp only [events, hhead, List.map_cons, List.sum_cons, List.map_append, List.sum_append,
        List.length_append, hself, eventCost]
      omega
  | serverEp l =>
      obtain ⟨hmay, c, hs, rfl⟩ := step_serverEp h
      obtain ⟨-, ep, he, rfl⟩ := ServerConfig.step_ep hs
      obtain ⟨hcm, hland⟩ := mayMove_moves hmay
      have hwire := wireAfter_cost s.server.ep s.goAhead l
      rcases spent_of_step hok hcm hland he with ⟨rfl, hl⟩ | hbroken | ⟨p, rest, hsq, hsq', herr⟩ |
        ⟨hsq, herr, hl, hline⟩
      -- the queue pair was broken before
      · rw [wireAfter_eq _ _ hl] at hne
        exact absurd rfl hne
      · exact totalMeasure_of_breaks rfl rfl (Nat.add_lt_add_right hbroken _)
      · refine totalMeasure_of_works rfl rfl (by simp only [breaks, intact, herr]) ?_
        simp only [works, hsq, hsq', List.map_cons, List.sum_cons, workCost]
        omega
      · refine totalMeasure_of_lines rfl rfl (by simp only [breaks, intact, herr]) ?_
          (Nat.add_lt_add_right hline _)
        simp only [works, hsq, wireAfter_eq _ _ hl]
  | clientEp l =>
      obtain ⟨hmay, ep, he, rfl⟩ := step_clientEp h
      obtain ⟨hcm, hland⟩ := mayMove_moves hmay
      have hwire := wireAfter_cost s.client.ep s.advert l
      rcases spent_of_step hok hcm hland he with ⟨rfl, hl⟩ | hbroken | ⟨p, rest, hsq, hsq', herr⟩ |
        ⟨hsq, herr, hl, hline⟩
      · rw [wireAfter_eq _ _ hl] at hne
        exact absurd rfl hne
      · exact totalMeasure_of_breaks rfl rfl (Nat.add_lt_add_left hbroken _)
      · refine totalMeasure_of_works rfl rfl (by simp only [breaks, intact, herr]) ?_
        simp only [works, hsq, hsq', List.map_cons, List.sum_cons, workCost]
        omega
      · refine totalMeasure_of_lines rfl rfl (by simp only [breaks, intact, herr]) ?_
          (Nat.add_lt_add_left hline _)
        simp only [works, hsq, wireAfter_eq _ _ hl]
  | serverMove =>
      obtain ⟨c, hs, rfl⟩ := Option.map_eq_some_iff.mp h
      obtain ⟨p, rest, hsq, -, hlt, hep, hpc, -⟩ := ServerConfig.step_move hs
      refine totalMeasure_of_works (by simp [rank, hpc]) rfl
        (by simp only [breaks, intact, hep]) ?_
      simp only [works, hep, hsq, List.map_cons, List.sum_cons, workCost]
      omega
  | clientMove =>
      obtain ⟨ep, he, rfl⟩ := Option.map_eq_some_iff.mp h
      obtain ⟨p, rest, hsq, -, -, hlt, rfl⟩ := Endpoint.sendByte_eq_some he
      refine totalMeasure_of_works rfl rfl rfl ?_
      simp only [works, hsq, List.map_cons, List.sum_cons, workCost]
      omega
  | transmitAdvert =>
      obtain ⟨wire, hw, rfl⟩ := Option.map_eq_some_iff.mp h
      obtain ⟨p, rest, hstill, -, -, -, -, rfl⟩ := Endpoint.transmit_eq_some hw
      refine totalMeasure_of_works rfl rfl rfl ?_
      simp only [works, hstill, wireCost]
      omega
  | transmitGoAhead =>
      obtain ⟨wire, hw, rfl⟩ := Option.map_eq_some_iff.mp h
      obtain ⟨p, rest, hstill, -, -, -, -, rfl⟩ := Endpoint.transmit_eq_some hw
      refine totalMeasure_of_works rfl rfl rfl ?_
      simp only [works, hstill, wireCost]
      omega
  | landAdvert =>
      obtain ⟨msg, len, c, hflying, hs, rfl⟩ := step_landAdvert h
      have hpc := server_pc hs (by simp)
      obtain ⟨-, ep, he, rfl⟩ := ServerConfig.step_ep hs
      obtain ⟨-, -, rfl⟩ := Endpoint.step_land he
      refine totalMeasure_of_works rfl rfl rfl ?_
      simp only [works, hflying, wireCost]
      omega
  | landGoAhead =>
      obtain ⟨msg, len, ep, hflying, he, rfl⟩ := step_landGoAhead h
      obtain ⟨-, -, rfl⟩ := Endpoint.step_land he
      refine totalMeasure_of_works rfl rfl rfl ?_
      simp only [works, hflying, wireCost]
      omega

/-- No healthy step changes anything any more. -/
def AtRest (N : Nat) (s : System) : Prop :=
  ∀ l s', Healthy s l → step N s l = some s' → s' = s

/-- A step that leads on changes something. -/
theorem AtRest.not_leads (h : AtRest N s) : ¬ Leads N s := by
  rintro ⟨l, s', hok, hadv, hs⟩
  have hlt := step_measure hadv hs
  rw [h l s' hok hs] at hlt
  exact lt_irrefl _ hlt

/-- Where nothing can change any more both main threads have ended. -/
theorem AtRest.freed {client server : Endian} (hrest : AtRest N s)
    (h : Joint client server s) : s.server.pc = .freed ∧ s.client.pc = .freed := by
  obtain ⟨hserver, hclient⟩ := h.leads.resolve_right hrest.not_leads
  constructor
  · cases hpc : s.server.pc with
    | freed => rfl
    | destroyListener =>
        exact absurd (leads_server (by rw [hpc]; rfl) (.inl (by simp [hpc]))) hrest.not_leads
    | _ => simp [hpc, serverReturned] at hserver
  · cases hpc : s.client.pc with
    | freed => rfl
    | destroyId =>
        exact absurd (leads_client (by rw [hpc]; rfl) (.inl (by simp [hpc]))) hrest.not_leads
    | _ => simp [hpc, clientReturned] at hclient

theorem totalMeasure_wf (N : Nat) :
    WellFounded fun s s' : System => totalMeasure N s < totalMeasure N s' :=
  InvImage.wf (totalMeasure N) wellFounded_lt

/-- Every state can be driven to rest. -/
theorem exists_atRest (N : Nat) (s : System) :
    ∃ s', Runs.Reach (step N) Healthy s s' ∧ AtRest N s' := by
  obtain ⟨s', hreach, hmin⟩ := (totalMeasure_wf N).has_min
    {s' | Runs.Reach (step N) Healthy s s'} ⟨s, .refl⟩
  refine ⟨s', hreach, ?_⟩
  intro l t hok ht
  by_contra hne
  exact hmin t (.tail l hreach hok ht) (step_totalMeasure hok ht hne)

end Steps

/-- **Every run comes to an end.** An infinite healthy run changes the
state only finitely often; every run can be continued until nothing
changes any more, and then both sides have freed their contexts. -/
theorem runs_end {N : Nat} {client server : Endian} {mem : List Byte}
    {remote : BitVec 64 → Byte} (hmem : bufSize ≤ mem.length) :
    (∀ run : Nat → System,
      (∀ n, ∃ l, Healthy (run n) l ∧ step N (run n) l = some (run (n + 1))) →
      ∃ n, ∀ m, n ≤ m → run m = run n) ∧
    ∀ s, Runs.Reach (step N) Healthy (init client server mem remote) s →
      (∃ s', Runs.Reach (step N) Healthy s s' ∧ AtRest N s') ∧
        (AtRest N s → s.server.pc = .freed ∧ s.client.pc = .freed) := by
  have hdown : ∀ a l b, Healthy a l → step N a l = some b → b ≠ a →
      totalMeasure N b < totalMeasure N a := fun _ _ _ => step_totalMeasure
  constructor
  · intro run hrun
    exact Runs.comes_to_rest (totalMeasure N) hdown hrun
  · intro s hs
    exact ⟨exists_atRest N s, fun hrest => hrest.freed (joint_of_reach hmem hs)⟩

/-- Two iterations between machines of different byte order. -/
theorem runs_end_two : ∃ s,
    Runs.Reach (step 2) Healthy (init .little .big (List.replicate 64 0) fun _ => 0) s ∧
      s.server.pc = .freed ∧ s.client.pc = .freed := by
  have hend : ∀ s, Runs.Reach (step 2) Healthy
      (init .little .big (List.replicate 64 0) fun _ => 0) s →
      (∃ s', Runs.Reach (step 2) Healthy s s' ∧ AtRest 2 s') ∧
        (AtRest 2 s → s.server.pc = .freed ∧ s.client.pc = .freed) := (runs_end (by decide)).2
  obtain ⟨s, hs, hrest⟩ := (hend _ .refl).1
  exact ⟨s, hs, (hend s hs).2 hrest⟩

end System

end MegaVM
