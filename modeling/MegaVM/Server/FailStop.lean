import MegaVM.Server.Serial
import MegaVM.Server.Transfer

/-!
# After an error

The checks that follow a wait or a post in `start_MegaVM_server`,
`megaVM_rdma_read` and `megaVM_rdma_write` only print; the loop they stand
in has no way out. The loop it replaced, kept in a comment, leaves with
`break` at every one of them.

`FailStop` is what those checks promise: after `ERROR` or a refused RDMA
post nothing more is posted, and the go-ahead follows `N` successful READs
and WRITEs. It holds of every run whose steps are all `Steady`, and of a
run that posts the go-ahead only if they are (`failStop_of_steady`).
-/

namespace MegaVM

open TestState Runs

namespace ServerConfig

/-! ## What is promised -/

/-- The points at which a post is still to come. -/
def Looping : ServerPc → Bool
  | .startWait | .readSet _ | .readPost _ | .readWait _ | .writeSet _ | .writePost _
  | .writeWait _ | .goAhead => true
  | _ => false

/-- A step of the main thread, and one whose call fails. -/
def isMain : ServerLabel → Bool
  | .main _ => true
  | _ => false

def isRefusal : ServerLabel → Bool
  | .main inp => inp.ret != 0
  | _ => false

/-- A call of `ib_post_send`, by the loop or for the go-ahead. -/
abbrev Posts (t : ServerConfig × ServerLabel × ServerConfig) : Prop :=
  (RdmaPost t.1.pc = true ∨ t.1.pc = .goAhead) ∧ isMain t.2.1 = true

/-- A step that leaves `state` in `ERROR`, or in which `ib_post_send` of
the loop returns non-zero. -/
abbrev Breaks (t : ServerConfig × ServerLabel × ServerConfig) : Prop :=
  t.2.2.ep.cb.state = error ∨ (RdmaPost t.1.pc = true ∧ isRefusal t.2.1 = true)

/-- An unsuccessful completion of an RDMA operation has come in. -/
def Lost (e : Endpoint) : Prop :=
  ∃ wc, e.Completed wc ∧ wc.status ≠ .success ∧ wc.opcode.isRdma = true

/-- All reads and writes of the loop have completed successfully: `N` of
each were posted, none is on the send queue, none has failed. -/
structure LoopDone (N : Nat) (e : Endpoint) : Prop where
  reads : e.posted .rdmaRead = N
  writes : e.posted .rdmaWrite = N
  sq : ∀ p ∈ e.sq, p.wr.opcode.wc.isRdma = false
  kept : ¬ Lost e

structure FailStop (N : Nat) (c₀ : ServerConfig) (ts : History) : Prop where
  start : c₀.ep.cb.state = error → ∀ t ∈ ts, ¬ Posts t
  stops : ts.Pairwise fun u t => Posts t → ¬ Breaks u
  goAhead : ∀ t ∈ ts, Posts t → t.1.pc = .goAhead → LoopDone N t.1.ep

/-! ## When it is kept -/

/-- A completion that the handler does not take as an error. -/
def Accepted (wc : Wc) (ret : Int) : Prop :=
  wc.status ≠ .failure ∧ (wc.status = .success →
    wc.opcode ≠ .other ∧ (wc.opcode = .recv → wc.byteLen = sizeofRdmaInfo ∧ ret = 0))

/-- A move of the endpoint that neither writes `ERROR` nor loses an RDMA
operation. -/
def SteadyEp (e : Endpoint) : EpLabel → Prop
  | .cm event _ _ => event.isError = false
  | .cqPoll ret => ∀ wc ∈ e.cq.queue.head?, Accepted wc ret
  | .cqPollErr => False
  | .fail | .flush => ∀ p ∈ e.sq.head?, p.wr.opcode.wc.isRdma = false
  | _ => True

/-- Nothing fails while a post is still to come, and the go-ahead is not
posted before the RDMA operations have left the send queue: it is not where
the posts are paced (`SerialInv.steady`). -/
def Steady (c : ServerConfig) : ServerLabel → Prop
  | .main inp =>
      (RdmaPost c.pc = true → inp.ret = 0) ∧
        (c.pc = .goAhead → ∀ p ∈ c.ep.sq, p.wr.opcode.wc.isRdma = false)
  | .ep l => Looping c.pc = true → SteadyEp c.ep l
  | .move | .reuse _ => True

instance (wc : Wc) (ret : Int) : Decidable (Accepted wc ret) :=
  inferInstanceAs (Decidable (_ ∧ (_ → _ ∧ (_ → _ ∧ _))))

instance (e : Endpoint) : (l : EpLabel) → Decidable (SteadyEp e l)
  | .cm event _ _ => inferInstanceAs (Decidable (event.isError = false))
  | .cqPoll ret => inferInstanceAs (Decidable (∀ wc ∈ e.cq.queue.head?, Accepted wc ret))
  | .cqPollErr => .isFalse id
  | .fail | .flush =>
      inferInstanceAs (Decidable (∀ p ∈ e.sq.head?, p.wr.opcode.wc.isRdma = false))
  | .cqEnter | .complete | .land .. | .flushRecv | .breakQp => .isTrue trivial

instance (c : ServerConfig) : (l : ServerLabel) → Decidable (Steady c l)
  | .main inp =>
      inferInstanceAs (Decidable ((RdmaPost c.pc = true → inp.ret = 0) ∧
        (c.pc = .goAhead → ∀ p ∈ c.ep.sq, p.wr.opcode.wc.isRdma = false)))
  | .ep l => inferInstanceAs (Decidable (Looping c.pc = true → SteadyEp c.ep l))
  | .move | .reuse _ => .isTrue trivial

/-! ## What the handler does to `ERROR` -/

/-- Exactly a completion that is not accepted moves a server to `ERROR`. -/
theorem ServerTurn.error_iff {cb : IbContext} {wc : Wc} {ret : Int} {d : Drained}
    (h : ServerTurn cb wc ret d) (hst : cb.state ≠ error) :
    d.cb.state = error ↔ ¬ Accepted wc ret := by
  cases h with
  | flushed hs =>
      refine iff_of_false hst (not_not.mpr ⟨?_, ?_⟩)
      · rw [hs]
        simp
      · rw [hs]
        simp
  | failed hs => exact iff_of_true rfl fun hacc => hacc.1 hs
  | sent hs hop | written hs hop | read hs hop =>
      refine iff_of_false (by first | exact hst | simp) (not_not.mpr ⟨?_, fun _ => ⟨?_, ?_⟩⟩)
      · rw [hs]
        simp
      · rw [hop]
        simp
      · rw [hop]
        simp
  | malformed hs hop hlen => exact iff_of_true rfl fun hacc => hlen ((hacc.2 hs).2 hop).1
  | notReposted hs hop hlen hret => exact iff_of_true rfl fun hacc => hret ((hacc.2 hs).2 hop).2
  | decoded hs hop hlen hret =>
      refine iff_of_false ?_ (not_not.mpr ⟨?_, fun _ => ⟨?_, fun _ => ⟨hlen, hret⟩⟩⟩)
      · simp only [decode]
        split <;> simp
      · rw [hs]
        simp
      · rw [hop]
        simp
  | unexpected hs hop => exact iff_of_true rfl fun hacc => (hacc.2 hs).1 hop

section Endpoint
variable {e e' : Endpoint} {l : EpLabel}

/-- A move whose completion is no failed RDMA operation loses none. -/
theorem not_lost_step (hkept : ¬ Lost e) (h : e.step serverHook l = some e')
    (hnew : ∀ w, l.completion e = some w → w.status ≠ .success → w.opcode.isRdma = false) :
    ¬ Lost e' := by
  rintro ⟨w, hw, hbad, hrdma⟩
  rcases (Endpoint.step_completed h w).mp hw with hw | hw
  · exact hkept ⟨w, hw, hbad, hrdma⟩
  · rw [hnew w hw hbad] at hrdma
    cases hrdma

/-- An unsuccessful completion of the oldest work request. -/
theorem steady_retire (status : WcStatus) {p : Posted} {rest : List Posted} (hkept : ¬ Lost e)
    (h : e.step serverHook l = some e') (hbad : status ≠ .success) (hsq : e.sq = p :: rest)
    (hcomp : l.completion e = some ⟨status, p.wr.opcode.wc, p.sge.length⟩)
    (hst' : e'.cb.state ≠ error) :
    (∀ p ∈ e.sq.head?, p.wr.opcode.wc.isRdma = false) ↔ e'.cb.state ≠ error ∧ ¬ Lost e' := by
  rw [hsq]
  refine ⟨fun hno => ⟨hst', not_lost_step hkept h fun w hw _ => ?_⟩, fun hboth p' hp' => ?_⟩
  · rw [hcomp] at hw
    obtain rfl := Option.some.inj hw
    exact hno p rfl
  · obtain rfl := Option.some.inj hp'
    cases hrdma : p.wr.opcode.wc.isRdma with
    | false => rfl
    | true =>
        -- its completion would be that of a lost operation
        have hdone := (Endpoint.step_completed h _).mpr (.inr hcomp)
        exact absurd ⟨_, hdone, hbad, hrdma⟩ hboth.2

/-- A CM event puts the state at `ERROR` exactly if it is one of the error
events. -/
theorem steady_cm (event : CmEvent) (id : CmId) (ret : Int) (hst : e.cb.state ≠ error) :
    event.isError = false ↔ (cmaEventHandler e.cb event id ret).1.state ≠ error := by
  refine ⟨fun hcalm => ?_, fun hlive => ?_⟩
  · rcases cmaEventHandler_calm e.cb hcalm id ret with hsame | hle
    · exact hsame ▸ hst
    · intro herr
      rw [herr] at hle
      exact absurd hle (by decide)
  · cases hev : event.isError with
    | false => rfl
    | true => exact absurd (cmaEventHandler_error hev id ret) hlive

/-- A completion taken out of the queue likewise, if it is not accepted. -/
theorem steady_poll {wc : Wc} {rest : List Wc} (ret : Int) (hsrv : e.cb.server ≠ 0)
    (hst : e.cb.state ≠ error) (hq : e.cq.queue = wc :: rest) :
    (∀ wc ∈ e.cq.queue.head?, Accepted wc ret) ↔
      (drainOne serverHook e.cb wc ret).cb.state ≠ error := by
  have hiff := ServerTurn.error_iff (drainOne_turn hsrv wc ret) hst
  rw [hq]
  refine ⟨fun hacc herr => hiff.mp herr (hacc wc rfl), fun hlive wc' hwc' => ?_⟩
  obtain rfl := Option.some.inj hwc'
  exact not_not.mp (mt hiff.mpr hlive)

/-- The other moves keep the state, and an operation is lost with none of
them. -/
theorem steady_spared (hst : e.cb.state ≠ error) (hkept : ¬ Lost e)
    (h : e.step serverHook l = some e') (hstate : e'.cb.state = e.cb.state)
    (hnew : ∀ w, l.completion e = some w → w.status ≠ .success → w.opcode.isRdma = false) :
    e'.cb.state ≠ error ∧ ¬ Lost e' :=
  ⟨hstate ▸ hst, not_lost_step hkept h hnew⟩

/-- Away from `ERROR` and from lost operations exactly the steady moves
stay away from both. -/
theorem steadyEp_iff (hsrv : e.cb.server ≠ 0) (hst : e.cb.state ≠ error) (hkept : ¬ Lost e)
    (h : e.step serverHook l = some e') :
    SteadyEp e l ↔ e'.cb.state ≠ error ∧ ¬ Lost e' := by
  have hlost := not_lost_step hkept h
  cases l with
  | cm event id ret =>
      simp only [Endpoint.step, Option.some.injEq] at h
      subst h
      have hiff := steady_cm event id ret hst
      exact ⟨fun hcalm => ⟨hiff.mp hcalm, hlost (by simp [EpLabel.completion])⟩,
        fun hboth => hiff.mpr hboth.1⟩
  | cqPoll ret =>
      obtain ⟨-, ⟨hq, rfl⟩ | ⟨wc, rest, hq, rfl⟩⟩ := Endpoint.step_poll h
      · -- `ib_poll_cq` finds nothing, and the handler returns
        refine iff_of_true ?_ ⟨hst, hlost (by simp [EpLabel.completion])⟩
        intro wc hwc
        rw [hq] at hwc
        cases hwc
      · have hiff := steady_poll ret hsrv hst hq
        exact ⟨fun hacc => ⟨hiff.mp hacc, hlost (by simp [EpLabel.completion])⟩,
          fun hboth => hiff.mpr hboth.1⟩
  | cqPollErr =>
      obtain ⟨-, rfl⟩ := Endpoint.step_cqPollErr h
      exact iff_of_false id fun hboth => hboth.1 rfl
  | fail =>
      obtain ⟨p, rest, hsq, -, rfl⟩ := Endpoint.step_fail h
      have hcomp : EpLabel.fail.completion e = some ⟨.failure, p.wr.opcode.wc, p.sge.length⟩ := by
        rw [EpLabel.completion, hsq]
        rfl
      exact steady_retire .failure hkept h (by simp) hsq hcomp hst
  | flush =>
      obtain ⟨p, rest, hsq, -, rfl⟩ := Endpoint.step_flush h
      have hcomp : EpLabel.flush.completion e =
          some ⟨.wrFlushErr, p.wr.opcode.wc, p.sge.length⟩ := by
        rw [EpLabel.completion, hsq]
        rfl
      exact steady_retire .wrFlushErr hkept h (by simp) hsq hcomp hst
  | cqEnter =>
      obtain ⟨-, -, rfl⟩ := Endpoint.step_cqEnter h
      exact iff_of_true trivial (steady_spared hst hkept h rfl (by simp [EpLabel.completion]))
  | complete =>
      obtain ⟨p, rest, hsq, -, -, rfl⟩ := Endpoint.step_complete h
      refine iff_of_true trivial (steady_spared hst hkept h rfl fun w hw hbad => ?_)
      -- the only RDMA operation that completes here is a successful one
      rw [EpLabel.completion, hsq] at hw
      obtain rfl := Option.some.inj hw
      exact absurd rfl hbad
  | land buf byteLen status =>
      obtain ⟨-, -, rfl⟩ := Endpoint.step_land h
      refine iff_of_true trivial (steady_spared hst hkept h rfl fun w hw _ => ?_)
      obtain rfl := Option.some.inj hw
      rfl
  | flushRecv =>
      obtain ⟨-, -, rfl⟩ := Endpoint.step_flushRecv h
      refine iff_of_true trivial (steady_spared hst hkept h rfl fun w hw _ => ?_)
      obtain rfl := Option.some.inj hw
      rfl
  | breakQp =>
      refine iff_of_true trivial
        (steady_spared hst hkept h ?_ (by simp [EpLabel.completion]))
      simp only [Endpoint.step, Option.some.injEq] at h
      subst h
      rfl

end Endpoint

/-! ## The loop without an error -/

/-- The points behind the go-ahead, and the fault. -/
def Past : ServerPc → Bool
  | .disconnect | .freeBuffers | .freeQp | .destroyChild | .destroyListener | .freed
  | .oops => true
  | _ => false

/-- READs posted when the main thread is at a point of the loop. -/
def readsAt (N : Nat) : ServerPc → Nat
  | .readSet i | .readPost i => i
  | .readWait i | .writeSet i | .writePost i | .writeWait i => i + 1
  | .goAhead => N
  | _ => 0

def writesAt (N : Nat) : ServerPc → Nat
  | .readSet i | .readPost i | .readWait i | .writeSet i | .writePost i => i
  | .writeWait i => i + 1
  | .goAhead => N
  | _ => 0

/-- The iteration is one of the `N`. -/
def TurnOk (N : Nat) : ServerPc → Prop
  | .readSet i | .readPost i | .readWait i | .writeSet i | .writePost i | .writeWait i => i < N
  | _ => True

structure LoopInv (N : Nat) (e : Endpoint) (pc : ServerPc) : Prop where
  server : e.cb.server ≠ 0
  live : e.cb.state ≠ error
  kept : ¬ Lost e
  sqWr : e.cb.mainFields.sqWr.opcode = .send
  opcode : OpcodeAt e.cb.mainFields pc
  turn : TurnOk N pc
  reads : e.posted .rdmaRead = readsAt N pc
  writes : e.posted .rdmaWrite = writesAt N pc

theorem AtLoop.kept {c : ServerConfig} (h : AtLoop c) : ¬ Lost c.ep := by
  rintro ⟨wc, hq | hlog, -, hrdma⟩
  · have hmem : wc.opcode ∈ c.ep.unhandled := by
      refine List.mem_filter.mpr ⟨List.mem_append_left _ ?_, hrdma⟩
      exact List.mem_map_of_mem hq
    rw [h.quiet] at hmem
    cases hmem
  · have hzero := (h.fresh wc.opcode hrdma).2
    rw [Endpoint.handled, List.countP_eq_zero] at hzero
    exact hzero _ hlog (by simp [Obs.isHandled])

theorem AtLoop.loopInv {N : Nat} {c : ServerConfig} (h : AtLoop c) (hsrv : c.ep.cb.server ≠ 0)
    (hst : c.ep.cb.state ≠ error) : LoopInv N c.ep c.pc := by
  rw [h.pc]
  exact ⟨hsrv, hst, h.kept, h.sqWr, trivial, trivial, (h.fresh .rdmaRead rfl).1,
    (h.fresh .rdmaWrite rfl).1⟩

/-- A post completes nothing. -/
theorem completed_postSend {e : Endpoint} {wr : SendWr} {sge : Sge} {ret : Int} {w : Wc} :
    (e.postSend wr sge ret).Completed w ↔ e.Completed w := by
  by_cases hret : ret = 0 <;> simp [Endpoint.postSend, hret, Endpoint.Completed]

section Loop
variable {N : Nat} {len : Option Nat} {inp : MainIn} {e e' : Endpoint} {cb : IbContext}
  {pc pc' : ServerPc} {call : Call}

/-- A post of the loop that is not refused. -/
theorem LoopInv.post {wr : SendWr} {sge : Sge} (h : LoopInv N e pc)
    (hopcode : OpcodeAt e.cb.mainFields pc') (hturn : TurnOk N pc')
    (hreads : readsAt N pc' = readsAt N pc + if wr.opcode.wc = .rdmaRead then 1 else 0)
    (hwrites : writesAt N pc' = writesAt N pc + if wr.opcode.wc = .rdmaWrite then 1 else 0) :
    LoopInv N (e.postSend wr sge 0) pc' where
  server := h.server
  live := h.live
  kept := by
    rintro ⟨w, hw, hbad⟩
    exact h.kept ⟨w, completed_postSend.mp hw, hbad⟩
  sqWr := h.sqWr
  opcode := hopcode
  turn := hturn
  reads := by rw [postSend_posted, h.reads, hreads]
  writes := by rw [postSend_posted, h.writes, hwrites]

/-- A statement of the loop leads on in it, to the go-ahead or past it. -/
theorem LoopInv.main (h : LoopInv N e pc) (hret : RdmaPost pc = true → inp.ret = 0)
    (hm : serverMain N len inp e.cb pc = some (cb, pc', call))
    (hcall : Endpoint.call inp { e with cb := cb } call = some e') (hl : Looping pc = true) :
    (Looping pc' = true ∧ LoopInv N e' pc') ∨ Past pc' = true := by
  obtain ⟨hserver, hlive, hkept, hsqWr, hopcode, hturn, hreads, hwrites⟩ := h
  cases serverMain_move hm with
  | started hgo hN =>
      cases hcall
      exact .inl ⟨rfl, hserver, hlive, hkept, hsqWr, trivial, hN, hreads, hwrites⟩
  | startedEmpty hgo hN =>
      cases hcall
      subst hN
      exact .inl ⟨rfl, hserver, hlive, hkept, hsqWr, trivial, trivial, hreads, hwrites⟩
  | readSet i =>
      cases hcall
      exact .inl ⟨rfl, hserver, hlive, hkept, hsqWr, rfl, hturn, hreads, hwrites⟩
  | readPost i =>
      cases hcall
      have hop : e.cb.rdmaSqWr.opcode = .rdmaRead := hopcode
      have hinv : LoopInv N e (.readPost i) :=
        ⟨hserver, hlive, hkept, hsqWr, hopcode, hturn, hreads, hwrites⟩
      rw [hret rfl]
      refine .inl ⟨rfl, hinv.post trivial hturn ?_ ?_⟩
      · rw [hop]
        rfl
      · rw [hop]
        rfl
  | readWoken i hgo =>
      cases hcall
      exact .inl ⟨rfl, hserver, hlive, hkept, hsqWr, trivial, hturn, hreads, hwrites⟩
  | writeSet i n hlen =>
      cases hcall
      exact .inl ⟨rfl, hserver, hlive, hkept, hsqWr, rfl, hturn, hreads, hwrites⟩
  | ranOff i hlen => exact .inr rfl
  | writePost i =>
      cases hcall
      have hop : e.cb.rdmaSqWr.opcode = .rdmaWrite := hopcode
      have hinv : LoopInv N e (.writePost i) :=
        ⟨hserver, hlive, hkept, hsqWr, hopcode, hturn, hreads, hwrites⟩
      rw [hret rfl]
      refine .inl ⟨rfl, hinv.post trivial hturn ?_ ?_⟩
      · rw [hop]
        rfl
      · rw [hop]
        rfl
  | nextTurn i hgo hi =>
      cases hcall
      exact .inl ⟨rfl, hserver, hlive, hkept, hsqWr, trivial, hi, hreads, hwrites⟩
  | lastTurn i hgo hi =>
      cases hcall
      -- the last iteration: `N` of each have been posted
      have hN : i + 1 = N := Nat.le_antisymm hturn hi
      exact .inl ⟨rfl, hserver, hlive, hkept, hsqWr, trivial, trivial, hreads.trans hN,
        hwrites.trans hN⟩
  | goAhead => exact .inr rfl
  | _ => cases hl

/-- The main thread does not come back to the loop. -/
theorem serverMain_past {cb' : IbContext} (hm : serverMain N len inp cb pc = some (cb', pc', call))
    (hpast : Past pc = true) : Past pc' = true := by
  cases serverMain_move hm <;> first | rfl | cases hpast

theorem serverMain_place (hm : serverMain N len inp e.cb pc = some (cb, pc', call)) :
    (Looping pc = true → Looping pc' = true ∨ Past pc' = true) ∧
      (pc = .goAhead → Past pc' = true) := by
  cases serverMain_move hm <;> simp [Looping, Past]

/-- In the loop nothing that has completed is forgotten. -/
theorem completed_loop (hm : serverMain N len inp e.cb pc = some (cb, pc', call))
    (hcall : Endpoint.call inp { e with cb := cb } call = some e') (hl : Looping pc = true)
    {w : Wc} (hw : e.Completed w) : e'.Completed w := by
  cases serverMain_move hm with
  | readPost i | writePost i | goAhead =>
      cases hcall
      exact completed_postSend.mpr hw
  | started hgo hN | startedEmpty hgo hN | readSet i | readWoken i hgo | writeSet i n hlen
  | ranOff i hlen | nextTurn i hgo hi | lastTurn i hgo hi =>
      cases hcall
      exact hw
  | _ => cases hl

end Loop

/-! ## Runs of the loop -/

section Runs
variable {N : Nat} {c₀ c c' : ServerConfig} {l : ServerLabel}

/-- One step taken in the loop. -/
theorem LoopInv.step (h : LoopInv N c.ep c.pc) (hl : Looping c.pc = true) (hok : Steady c l)
    (hs : c.step N l = some c') :
    ((Looping c'.pc = true ∧ LoopInv N c'.ep c'.pc) ∨ Past c'.pc = true) ∧
      ¬ Breaks (c, l, c') := by
  cases l with
  | main inp =>
      obtain ⟨cb, call, hm, hcall, -, -⟩ := step_main_call hs
      refine ⟨h.main hok.1 hm hcall hl, ?_⟩
      have hcb : c'.ep.cb = cb := Endpoint.call_cb hcall
      rintro (herr | ⟨hpost, hbad⟩)
      · rw [show (c, ServerLabel.main inp, c').2.2.ep.cb = cb from hcb, serverMain_state hm] at herr
        exact h.live herr
      · exact absurd (hok.1 hpost) (by simpa [isRefusal] using hbad)
  | move =>
      obtain ⟨p, rest, hsq, -, -, hep, hpc, -⟩ := step_move hs
      have hcb : c'.ep.cb = c.ep.cb := by rw [hep]
      refine ⟨.inl ⟨hpc ▸ hl, ?_⟩, ?_⟩
      · rw [hpc, hep]
        exact ⟨h.server, h.live, h.kept, h.sqWr, h.opcode, h.turn, h.reads, h.writes⟩
      · rintro (herr | ⟨-, hbad⟩)
        · rw [show (c, ServerLabel.move, c').2.2.ep.cb = c.ep.cb from hcb] at herr
          exact h.live herr
        · cases hbad
  | ep l =>
      obtain ⟨-, ep, he, rfl⟩ := step_ep hs
      obtain ⟨hlive, hkept⟩ := (steadyEp_iff h.server h.live h.kept he).mp (hok hl)
      have hmain := Endpoint.step_mainFields serverHook_framed he
      refine ⟨.inl ⟨hl, ?_, hlive, hkept, ?_, ?_, h.turn, ?_, ?_⟩, ?_⟩
      · rw [show ep.cb.server = c.ep.cb.server from congrArg MainFields.server hmain]
        exact h.server
      · rw [hmain]
        exact h.sqWr
      · rw [hmain]
        exact h.opcode
      · exact (Endpoint.step_counts he .rdmaRead rfl).1.trans h.reads
      · exact (Endpoint.step_counts he .rdmaWrite rfl).1.trans h.writes
      · rintro (herr | ⟨-, hbad⟩)
        · exact hlive herr
        · cases hbad
  | reuse mem =>
      obtain ⟨-, rfl⟩ := step_reuse hs
      refine ⟨.inl ⟨hl, h⟩, ?_⟩
      rintro (herr | ⟨-, hbad⟩)
      · exact h.live herr
      · cases hbad

theorem step_past (hpast : Past c.pc = true) (hs : c.step N l = some c') :
    Past c'.pc = true := by
  cases l with
  | main inp =>
      obtain ⟨cb, call, hm, -⟩ := step_main_call hs
      exact serverMain_past hm hpast
  | move =>
      obtain ⟨p, rest, -, -, -, -, hpc, -⟩ := step_move hs
      rw [hpc]
      exact hpast
  | ep l =>
      obtain ⟨-, ep, -, rfl⟩ := step_ep hs
      exact hpast
  | reuse mem =>
      obtain ⟨-, rfl⟩ := step_reuse hs
      exact hpast

/-- A post happens in the loop. -/
theorem Posts.looping {t : ServerConfig × ServerLabel × ServerConfig} (h : Posts t) :
    Looping t.1.pc = true := by
  obtain ⟨hpc | hpc, -⟩ := h
  · revert hpc
    cases t.1.pc <;> simp [RdmaPost, Looping]
  · rw [hpc]
    rfl

theorem not_looping_of_past {pc : ServerPc} (h : Past pc = true) : Looping pc = false := by
  revert h
  cases pc <;> simp [Past, Looping]

/-- A step after which nothing has gone wrong may be added. -/
theorem FailStop.concat {ts : History} {t : ServerConfig × ServerLabel × ServerConfig}
    (h : FailStop N c₀ ts) (hst : c₀.ep.cb.state ≠ error) (hstops : Posts t → ∀ u ∈ ts, ¬ Breaks u)
    (hgo : Posts t → t.1.pc = .goAhead → LoopDone N t.1.ep) : FailStop N c₀ (ts ++ [t]) where
  start herr := absurd herr hst
  stops := by
    refine List.pairwise_append.mpr ⟨h.stops, List.pairwise_singleton _ t, ?_⟩
    intro u hu v hv hpost
    obtain rfl := List.mem_singleton.mp hv
    exact hstops hpost u hu
  goAhead := by
    intro u hu
    rcases List.mem_append.mp hu with hu | hu
    · exact h.goAhead u hu
    · obtain rfl := List.mem_singleton.mp hu
      exact hgo

/-- Where a run of the loop is after the steps `ts`, as long as they are
steady. -/
def Going (N : Nat) (ts : History) (c : ServerConfig) : Prop :=
  (Looping c.pc = true ∧ (∀ u ∈ ts, ¬ Breaks u) ∧ LoopInv N c.ep c.pc) ∨ Past c.pc = true

theorem failStop_step {ts : History} (hst : c₀.ep.cb.state ≠ error) (hok : Steady c l)
    (hs : c.step N l = some c') (h : FailStop N c₀ ts ∧ Going N ts c) :
    FailStop N c₀ (ts ++ [(c, l, c')]) ∧ Going N (ts ++ [(c, l, c')]) c' := by
  obtain ⟨hstop, ⟨hl, hclean, hinv⟩ | hpast⟩ := h
  · obtain ⟨hnext, hno⟩ := hinv.step hl hok hs
    refine ⟨hstop.concat hst (fun _ => hclean) ?_, ?_⟩
    · rintro ⟨-, hmain⟩ hpc
      have hpc : c.pc = .goAhead := hpc
      have hreads := hinv.reads
      have hwrites := hinv.writes
      rw [hpc] at hreads hwrites
      refine ⟨hreads, hwrites, ?_, hinv.kept⟩
      cases l with
      | main inp => exact hok.2 hpc
      | _ => cases hmain
    · rcases hnext with ⟨hl', hinv'⟩ | hpast
      · refine .inl ⟨hl', fun u hu => ?_, hinv'⟩
        rcases List.mem_append.mp hu with hu | hu
        · exact hclean u hu
        · obtain rfl := List.mem_singleton.mp hu
          exact hno
      · exact .inr hpast
  · have hnot : ¬ Posts (c, l, c') := fun hpost => by
      have hl := hpost.looping
      rw [not_looping_of_past hpast] at hl
      cases hl
    exact ⟨hstop.concat hst (fun hpost => absurd hpost hnot) (fun hpost => absurd hpost hnot),
      .inr (step_past hpast hs)⟩

/-- What every run of the loop remembers of its steps `ts`. -/
structure Remembers (c₀ : ServerConfig) (ts : History) (c : ServerConfig) : Prop where
  place : Looping c.pc = true ∨ Past c.pc = true
  server : c.ep.cb.server ≠ 0
  gone : (∃ g ∈ ts, Posts g ∧ g.1.pc = .goAhead) → Past c.pc = true
  lost : Looping c.pc = true → (Lost c₀.ep ∨ ∃ u ∈ ts, Lost u.2.2.ep) → Lost c.ep
  error : c.ep.cb.state = error → c₀.ep.cb.state = error ∨ ∃ u ∈ ts, Breaks u

/-- In the loop no loss is forgotten. -/
theorem lost_step (hl : Looping c.pc = true) (hs : c.step N l = some c') (h : Lost c.ep) :
    Lost c'.ep := by
  obtain ⟨w, hw, hbad⟩ := h
  refine ⟨w, ?_, hbad⟩
  cases l with
  | main inp =>
      obtain ⟨cb, call, hm, hcall, -, -⟩ := step_main_call hs
      exact completed_loop hm hcall hl hw
  | move =>
      obtain ⟨p, rest, -, -, -, hep, -⟩ := step_move hs
      rw [hep]
      exact hw
  | ep l =>
      obtain ⟨-, ep, he, rfl⟩ := step_ep hs
      exact (Endpoint.step_completed he w).mpr (.inl hw)
  | reuse mem =>
      obtain ⟨-, rfl⟩ := step_reuse hs
      exact hw

/-- Only the main thread moves on. -/
theorem step_place (hs : c.step N l = some c') :
    (Looping c.pc = true → Looping c'.pc = true ∨ Past c'.pc = true) ∧
      (c.pc = .goAhead → isMain l = true → Past c'.pc = true) := by
  cases l with
  | main inp =>
      obtain ⟨cb, call, hm, -⟩ := step_main_call hs
      obtain ⟨hl, hgo⟩ := serverMain_place hm
      exact ⟨hl, fun hpc _ => hgo hpc⟩
  | move =>
      obtain ⟨p, rest, -, -, -, -, hpc, -⟩ := step_move hs
      exact ⟨fun hl => .inl (hpc ▸ hl), nofun⟩
  | ep l =>
      obtain ⟨-, ep, -, rfl⟩ := step_ep hs
      exact ⟨.inl, nofun⟩
  | reuse mem =>
      obtain ⟨-, rfl⟩ := step_reuse hs
      exact ⟨.inl, nofun⟩

theorem Remembers.step {ts : History} (h : Remembers c₀ ts c) (hs : c.step N l = some c') :
    Remembers c₀ (ts ++ [(c, l, c')]) c' := by
  obtain ⟨hloop, hgo⟩ := step_place hs
  constructor
  · exact h.place.elim hloop fun hpast => .inr (step_past hpast hs)
  · rw [step_server hs]
    exact h.server
  · rintro ⟨g, hg, hpost, hpc⟩
    rcases List.mem_append.mp hg with hg | hg
    · exact step_past (h.gone ⟨g, hg, hpost, hpc⟩) hs
    · obtain rfl := List.mem_singleton.mp hg
      exact hgo hpc hpost.2
  · intro hl' hlost
    have hl : Looping c.pc = true := by
      rcases h.place with hl | hpast
      · exact hl
      · rw [not_looping_of_past (step_past hpast hs)] at hl'
        cases hl'
    rcases hlost with h₀ | ⟨u, hu, hlost⟩
    · exact lost_step hl hs (h.lost hl (.inl h₀))
    · rcases List.mem_append.mp hu with hu | hu
      · exact lost_step hl hs (h.lost hl (.inr ⟨u, hu, hlost⟩))
      · obtain rfl := List.mem_singleton.mp hu
        exact hlost
  · exact fun herr => .inr ⟨_, List.mem_append_right ts (List.mem_singleton.mpr rfl), .inl herr⟩

theorem Remembers.of_path (h₀ : AtLoop c₀) (hsrv : c₀.ep.cb.server ≠ 0)
    {p : List (ServerLabel × ServerConfig)} (hp : Path (ServerConfig.step N) c₀ p) :
    Remembers c₀ (steps c₀ p) (last c₀ p) := by
  refine hp.invariant_history (P := Remembers c₀) ?_ fun ts a l b _ hs h => h.step hs
  refine ⟨.inl (by rw [h₀.pc]; rfl), hsrv, ?_, fun _ hlost => ?_, .inl⟩
  · rintro ⟨g, hg, -⟩
    cases hg
  · rcases hlost with hlost | ⟨u, hu, -⟩
    · exact hlost
    · cases hu

theorem steady_past (hpast : Past c.pc = true) (l : ServerLabel) : Steady c l := by
  cases l with
  | main inp =>
      constructor
      · intro hpost
        revert hpast hpost
        cases c.pc <;> simp [Past, RdmaPost]
      · intro hpc
        rw [hpc] at hpast
        cases hpast
  | ep l =>
      intro hl
      rw [not_looping_of_past hpast] at hl
      cases hl
  | move | reuse mem => trivial

theorem steady_goAhead {t : ServerConfig × ServerLabel × ServerConfig} (hpost : Posts t)
    (hpc : t.1.pc = .goAhead) (hdone : LoopDone N t.1.ep) : Steady t.1 t.2.1 := by
  obtain ⟨c, l, c'⟩ := t
  cases l with
  | main inp =>
      refine ⟨fun hrdma => ?_, fun _ => hdone.sq⟩
      rw [show c.pc = .goAhead from hpc] at hrdma
      cases hrdma
  | _ => cases hpost.2

/-- A step after which all is well is steady. -/
theorem steady_of_clean (hs : c.step N l = some c') (hsrv : c.ep.cb.server ≠ 0)
    (hst : c.ep.cb.state ≠ error) (hno : ¬ Breaks (c, l, c')) (hkept : ¬ Lost c'.ep)
    (hgo : Posts (c, l, c') → c.pc = .goAhead → LoopDone N c.ep) : Steady c l := by
  cases l with
  | main inp =>
      constructor
      · intro hpost
        by_contra hret
        exact hno (.inr ⟨hpost, by simpa [isRefusal] using hret⟩)
      · exact fun hpc => (hgo ⟨.inr hpc, rfl⟩ hpc).sq
  | ep l =>
      intro hl
      have hkept₀ : ¬ Lost c.ep := mt (lost_step hl hs) hkept
      obtain ⟨-, ep, he, rfl⟩ := step_ep hs
      exact (steadyEp_iff hsrv hst hkept₀ he).mpr ⟨fun herr => hno (.inl herr), hkept⟩
  | move | reuse mem => trivial

end Runs

/-- A run of steady steps is fail-stop. -/
theorem failStop_of_forall_steady {N : Nat} {c₀ : ServerConfig} (h₀ : AtLoop c₀)
    (hsrv : c₀.ep.cb.server ≠ 0) (hst : c₀.ep.cb.state ≠ error)
    {p : List (ServerLabel × ServerConfig)} (hp : Path (step N) c₀ p)
    (hok : ∀ t ∈ steps c₀ p, Steady t.1 t.2.1) : FailStop N c₀ (steps c₀ p) := by
  have hinit : FailStop N c₀ [] ∧ Going N [] c₀ := by
    refine ⟨⟨fun herr => absurd herr hst, .nil, fun t ht => absurd ht List.not_mem_nil⟩,
      .inl ⟨?_, fun u hu => absurd hu List.not_mem_nil, h₀.loopInv hsrv hst⟩⟩
    rw [h₀.pc]
    rfl
  refine (hp.invariant_history (P := fun ts c => FailStop N c₀ ts ∧ Going N ts c) hinit ?_).1
  intro ts a l b ht hs h
  exact failStop_step hst (hok (a, l, b) ht) hs h

/-- Where the waits really wait, the go-ahead finds no RDMA operation on the
send queue. -/
theorem SerialInv.steady {c : ServerConfig} {l : ServerLabel} (h : SerialInv c)
    (hsmooth : Smooth c l) (hep : ∀ l', l = .ep l' → Looping c.pc = true → SteadyEp c.ep l') :
    Steady c l := by
  cases l with
  | main inp =>
      refine ⟨fun _ => hsmooth.1, fun hpc => ?_⟩
      have hout := h.out
      rw [hpc] at hout
      simp only [OutAt, Endpoint.unhandled, List.filter_append, List.append_eq_nil_iff,
        List.filter_eq_nil_iff, List.mem_map, forall_exists_index, and_imp,
        forall_apply_eq_imp_iff₂] at hout
      exact fun p hp => Bool.not_eq_true _ ▸ hout.2 p hp
  | ep l => exact hep l rfl
  | move | reuse mem => trivial

/-- The same from conditions on the posts and the events alone. -/
theorem failStop_of_paced {N : Nat} {c₀ : ServerConfig} (h₀ : AtLoop c₀)
    (hsrv : c₀.ep.cb.server ≠ 0) (hst : c₀.ep.cb.state ≠ error)
    {p : List (ServerLabel × ServerConfig)} (hp : Path (step N) c₀ p)
    (hok : ∀ t ∈ steps c₀ p, Smooth t.1 t.2.1 ∧ Paced t.1 t.2.1 ∧
      ∀ l, t.2.1 = .ep l → Looping t.1.pc = true → SteadyEp t.1.ep l) :
    FailStop N c₀ (steps c₀ p) := by
  have hserial : ∀ c ∈ states c₀ p, SerialInv c :=
    hp.invariant_steps h₀.serialInv fun t ht hinv =>
      hinv.step (hok t ht).1 (hok t ht).2.1 (steps_mem_step hp ht)
  refine failStop_of_forall_steady h₀ hsrv hst hp fun t ht => ?_
  exact (hserial t.1 (steps_mem_states ht).1).steady (hok t ht).1 (hok t ht).2.2

/-- **The server is fail-stop in every run that nothing breaks**, and one
that posts the go-ahead is fail-stop only if nothing has: the steps that
are not steady are exactly those after which the loop should have been
left, and nothing in it leaves. -/
theorem failStop_of_steady {N : Nat} {c₀ : ServerConfig} (h₀ : AtLoop c₀)
    (hsrv : c₀.ep.cb.server ≠ 0) {p : List (ServerLabel × ServerConfig)}
    (hp : Path (step N) c₀ p) :
    (c₀.ep.cb.state ≠ error → (∀ t ∈ steps c₀ p, Steady t.1 t.2.1) →
      FailStop N c₀ (steps c₀ p)) ∧
    ((∃ g ∈ steps c₀ p, Posts g ∧ g.1.pc = .goAhead) → FailStop N c₀ (steps c₀ p) →
      c₀.ep.cb.state ≠ error ∧ ∀ t ∈ steps c₀ p, Steady t.1 t.2.1) := by
  constructor
  · exact fun hst hok => failStop_of_forall_steady h₀ hsrv hst hp hok
  · rintro ⟨g, hg, hgpost, hgpc⟩ hstop
    have hst : c₀.ep.cb.state ≠ error := fun herr => hstop.start herr g hg hgpost
    refine ⟨hst, fun t ht => ?_⟩
    obtain ⟨pre, post, hsplit⟩ := List.append_of_mem ht
    obtain ⟨q, hq, hqsteps, hqlast⟩ := hp.split hsplit
    have hbefore := Remembers.of_path h₀ hsrv hq
    rw [hqsteps, hqlast] at hbefore
    have hs := steps_mem_step hp ht
    rw [hsplit] at hg
    rcases List.mem_append.mp hg with hgpre | hgpost'
    · -- behind the go-ahead there is nothing left to break
      exact steady_past (hbefore.gone ⟨g, hgpre, hgpost, hgpc⟩) _
    · rcases List.mem_cons.mp hgpost' with rfl | hglater
      · -- the go-ahead itself
        exact steady_goAhead hgpost hgpc (hstop.goAhead _ ht hgpost hgpc)
      · -- a step before the go-ahead, which none of them has broken
        obtain ⟨mid, rest, rfl⟩ := List.append_of_mem hglater
        have hsplit' : steps c₀ p = (pre ++ t :: mid) ++ g :: rest := by
          rw [hsplit, List.append_assoc]
          rfl
        have htmem : t ∈ pre ++ t :: mid := List.mem_append_right pre List.mem_cons_self
        have hclean : ∀ u ∈ pre ++ t :: mid, ¬ Breaks u := by
          have hpair := hstop.stops
          rw [hsplit'] at hpair
          exact fun u hu => (List.pairwise_append.mp hpair).2.2 u hu g List.mem_cons_self hgpost
        obtain ⟨q', hq', hqsteps', hqlast'⟩ := hp.split hsplit'
        have hlate := Remembers.of_path h₀ hsrv hq'
        rw [hqsteps', hqlast'] at hlate
        have hgmem : g ∈ steps c₀ p := by
          rw [hsplit']
          exact List.mem_append_right _ List.mem_cons_self
        have hkept : ¬ Lost t.2.2.ep := fun hlost =>
          (hstop.goAhead g hgmem hgpost hgpc).kept
            (hlate.lost hgpost.looping (.inr ⟨t, htmem, hlost⟩))
        refine steady_of_clean hs hbefore.server ?_ (hclean t htmem) hkept (hstop.goAhead t ht)
        intro herr
        rcases hbefore.error herr with herr | ⟨u, hu, hbreak⟩
        · exact hst herr
        · exact hclean u (List.mem_append_left _ hu) hbreak

/-- Two prompt iterations and the go-ahead. -/
theorem failStop_oneByte :
    FailStop 2 oneByte (steps oneByte (trace (step 2) oneByte (twoTurns ++ [.main .ok]))) :=
  (failStop_of_steady oneByte_atLoop (by decide) (path_trace _ _)).1 (by decide) (by decide)

/-- The peer disconnects while the server is in its loop. -/
def brokenLoop : List ServerLabel :=
  [.main .ok, .ep (.cm .disconnected 1 0), .main .ok, .main .ok]

theorem not_failStop :
    ¬ ∀ (c₀ : ServerConfig) (p : List (ServerLabel × ServerConfig)), AtLoop c₀ →
      c₀.ep.cb.server ≠ 0 → Path (step 10) c₀ p → FailStop 10 c₀ (steps c₀ p) := by
  intro hall
  have h := hall oneByte _ oneByte_atLoop (by decide) (path_trace oneByte brokenLoop)
  exact absurd h.stops (by decide)

end ServerConfig

end MegaVM
