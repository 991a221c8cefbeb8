import MegaVM.System.Opening
import MegaVM.Notify

/-!
# From the advertisement to the go-ahead

The advertisement has landed at the server, which handles it and runs
its loop while the client waits. Nothing is lost on the way: a completion
in the queue has an invocation of the handler to poll it (`CqLive`), and
the state the handler leaves when it has polled everything that is out
(`settled`) ends the wait the main thread is in.
-/

namespace MegaVM

open TestState

/-! ## What the handler will leave behind -/

/-- The state the completion of an RDMA operation assigns. -/
def WcOpcode.done : WcOpcode → TestState
  | .rdmaRead => rdmaReadComplete
  | .rdmaWrite => rdmaWriteComplete
  | .send | .recv | .other => idle

/-- The state once every RDMA operation that is out has been handled. -/
def Endpoint.settled (e : Endpoint) : TestState :=
  match e.unhandled.getLast? with
  | none => e.cb.state
  | some op => op.done

theorem settled_congr {e e' : Endpoint} (hu : e'.unhandled = e.unhandled)
    (hst : e'.cb.state = e.cb.state) : e'.settled = e.settled := by
  rw [Endpoint.settled, Endpoint.settled, hu, hst]

/-- A posted RDMA operation will have the last word. -/
theorem settled_post {e : Endpoint} {wr : SendWr} {sge : Sge} (hop : wr.opcode.wc.isRdma = true) :
    (e.postSend wr sge 0).settled = wr.opcode.wc.done := by
  have hu : (e.postSend wr sge 0).unhandled = e.unhandled ++ [wr.opcode.wc] := by
    simp [Endpoint.postSend, Endpoint.unhandled, hop]
  rw [Endpoint.settled, hu, List.getLast?_append_of_ne_nil _ (List.cons_ne_nil _ _)]
  rfl

/-- Handling an operation settles what was to be settled. -/
theorem settled_poll {e e' : Endpoint} {op : WcOpcode} (hu : e.unhandled = op :: e'.unhandled)
    (hst : e'.cb.state = op.done) : e'.settled = e.settled := by
  rw [Endpoint.settled, Endpoint.settled, hu]
  cases hrest : e'.unhandled with
  | nil => exact hst
  | cons next rest =>
      rw [List.getLast?_cons_cons]
      cases hlast : (next :: rest).getLast? with
      | none => simp at hlast
      | some last => rfl

/-- As long as the state is not the settled one, something is out. -/
theorem unhandled_of_settled {e : Endpoint} (h : e.cb.state ≠ e.settled) :
    e.sq ≠ [] ∨ e.cq.queue ≠ [] := by
  by_contra hno
  push Not at hno
  apply h
  simp [Endpoint.settled, Endpoint.unhandled, hno.1, hno.2]

namespace System

open ServerConfig

/-! ## The server -/

/-- The points from the wait for the advertisement to the go-ahead. -/
def GoingPc : ServerPc → Bool
  | .acceptWait | .acceptTest | .startWait | .readSet _ | .readPost _ | .readWait _
  | .writeSet _ | .writePost _ | .writeWait _ | .goAhead => true
  | _ => false

/-- The advertisement is in the completion queue. -/
structure Landed (c : ServerConfig) : Prop where
  pc : c.pc = .acceptWait
  state : c.ep.cb.state = connectRequest
  sq : c.ep.sq = []
  queue : c.ep.cq.queue = [⟨.success, .recv, sizeofRdmaInfo⟩]

/-- The advertisement has been handled. -/
structure Going (c : ServerConfig) : Prop where
  pc : GoingPc c.pc = true
  state : rdmaReadAdv ≤ c.ep.cb.state ∧ c.ep.cb.state ≠ error
  sq : ∀ p ∈ c.ep.sq, p.wr.opcode ≠ .send
  queue : ∀ wc ∈ c.ep.cq.queue, wc.status = .success ∧ wc.opcode.isRdma = true
  read : ∀ i, c.pc = .readWait i → rdmaReadComplete ≤ c.ep.settled
  write : ∀ i, c.pc = .writeWait i → rdmaWriteComplete ≤ c.ep.settled

structure Served (host : Endian) (a : RdmaInfo) (content : Nat → Byte) (c : ServerConfig) :
    Prop where
  echo : EchoInv host a content c
  nul : ∃ j < a.len host, content j = 0
  qpErr : c.ep.qpErr = false
  live : CqLive c.ep
  stage : Landed c ∨ Going c

section Server
variable {N : Nat} {host : Endian} {a : RdmaInfo} {content : Nat → Byte} {c c' : ServerConfig}
  {inp : MainIn} {cb : IbContext} {pc : ServerPc} {call : Call}

/-- The advertisement lands in the receive of a server that waits. -/
theorem Calm.land (h : Calm host a content c) (hacc : Accepted c)
    (hnul : ∃ j < a.len host, content j = 0)
    (hs : c.step N (.ep (.land a sizeofRdmaInfo .success)) = some c') :
    Served host a content c' := by
  have hecho := h.echo.step (l := .ep (.land a sizeofRdmaInfo .success)) (fun _ => hnul)
    ⟨rfl, rfl, rfl, h.unseen _⟩ hs
  obtain ⟨-, ep, he, rfl⟩ := step_ep hs
  have hlive : CqLive c.ep := ⟨.inl hacc.armed, fun hne => absurd h.idle.queue hne⟩
  have hlive' : ep.cb.state ≠ error → CqLive ep := hlive.step he
  obtain ⟨-, -, rfl⟩ := Endpoint.step_land he
  exact ⟨hecho, hnul, h.idle.qpErr, hlive' (by simp [hacc.state]),
    .inl ⟨hacc.pc, hacc.state, h.idle.sq, by simp [h.idle.queue]⟩⟩

/-- The handler of the advertisement. -/
theorem drainOne_landed (cb : IbContext) (hsrv : cb.server ≠ 0) (hst : cb.state ≤ connected) :
    (drainOne serverHook cb ⟨.success, .recv, sizeofRdmaInfo⟩ 0).cb.state = rdmaReadAdv ∧
      (drainOne serverHook cb ⟨.success, .recv, sizeofRdmaInfo⟩ 0).stop = false := by
  simp only [drainOne, serverHook, hsrv, ne_eq, not_false_eq_true, if_true, serverRecv,
    not_true_eq_false, if_false, hst, true_or, and_self]

/-- The handler of an RDMA completion. -/
theorem drainOne_rdma (cb : IbContext) {wc : Wc} (hok : wc.status = .success)
    (hrdma : wc.opcode.isRdma = true) :
    (drainOne serverHook cb wc 0).cb.state = wc.opcode.done ∧
      (drainOne serverHook cb wc 0).stop = false ∧
      (drainOne serverHook cb wc 0).reposted = false := by
  revert hrdma
  cases hop : wc.opcode <;> simp [drainOne, hok, hop, WcOpcode.isRdma, WcOpcode.done]

theorem Served.server_ne (h : Served host a content c) : c.ep.cb.server ≠ 0 := by
  have hone : c.ep.cb.server = 1 := h.echo.server
  simp [hone]

/-- An RDMA operation completes. -/
theorem Going.retire {p : Posted} {rest : List Posted} (h : Going c)
    (hsq : c.ep.sq = p :: rest) : Going { c with ep := c.ep.retire p rest .success } := by
  have hset : (c.ep.retire p rest .success).settled = c.ep.settled :=
    settled_congr (Endpoint.retire_unhandled hsq .success) rfl
  refine ⟨h.pc, h.state, fun q hq => h.sq q (by simp [hsq, show q ∈ rest from hq]), ?_,
    by rw [hset]; exact h.read, by rw [hset]; exact h.write⟩
  intro wc hwc
  simp only [Endpoint.retire, Cq.add_queue, List.mem_append, List.mem_singleton] at hwc
  rcases hwc with hwc | rfl
  · exact h.queue wc hwc
  · refine ⟨rfl, ?_⟩
    have hop := h.sq p (by simp [hsq])
    revert hop
    cases p.wr.opcode <;> simp [WrOpcode.wc, WcOpcode.isRdma]

section Polled
variable {e' : Endpoint} {wc : Wc} {rest : List Wc}

/-- The handler polls the advertisement, and the server may go on. -/
theorem Landed.polled (h : Landed c) (hsrv : c.ep.cb.server ≠ 0)
    (hq : c.ep.cq.queue = wc :: rest) (hcb : e'.cb = (drainOne serverHook c.ep.cb wc 0).cb)
    (hq' : e'.cq.queue = rest) (hsq : e'.sq = c.ep.sq) : Going { c with ep := e' } := by
  rw [h.queue] at hq
  obtain ⟨rfl, rfl⟩ := List.cons.inj hq
  have hst : e'.cb.state = rdmaReadAdv := by
    rw [hcb]
    exact (drainOne_landed c.ep.cb hsrv (by simp [h.state])).1
  refine ⟨by simp [h.pc, GoingPc], by simp [hst], ?_, ?_, ?_, ?_⟩
  · simp [hsq, h.sq]
  · simp [hq']
  · simp [h.pc]
  · simp [h.pc]

/-- The handler polls an RDMA completion. -/
theorem Going.polled (h : Going c) (hq : c.ep.cq.queue = wc :: rest)
    (hcb : e'.cb = (drainOne serverHook c.ep.cb wc 0).cb) (hq' : e'.cq.queue = rest)
    (hsq : e'.sq = c.ep.sq) : Going { c with ep := e' } := by
  obtain ⟨hok, hrdma⟩ := h.queue wc (by simp [hq])
  have hst : e'.cb.state = wc.opcode.done := by
    rw [hcb]
    exact (drainOne_rdma c.ep.cb hok hrdma).1
  have hu := Endpoint.poll_unhandled hq hq' hsq
  rw [if_pos hrdma] at hu
  have hset : e'.settled = c.ep.settled := settled_poll hu hst
  have hstate : rdmaReadAdv ≤ wc.opcode.done ∧ wc.opcode.done ≠ error := by
    revert hrdma
    cases wc.opcode <;> simp [WcOpcode.isRdma, WcOpcode.done]
  constructor
  · exact h.pc
  · show rdmaReadAdv ≤ e'.cb.state ∧ e'.cb.state ≠ error
    rw [hst]
    exact hstate
  · show ∀ p ∈ e'.sq, p.wr.opcode ≠ .send
    rw [hsq]
    exact h.sq
  · intro w hw
    have hmem : w ∈ rest := hq' ▸ hw
    exact h.queue w (by simp [hq, hmem])
  · show ∀ i, c.pc = .readWait i → rdmaReadComplete ≤ e'.settled
    rw [hset]
    exact h.read
  · show ∀ i, c.pc = .writeWait i → rdmaWriteComplete ≤ e'.settled
    rw [hset]
    exact h.write

end Polled

/-- The moves the server's end can make by itself. -/
theorem Served.ep {l : EpLabel} (h : Served host a content c)
    (hmay : c.ep.mayMove .still false l = true)
    (hok : l.healthy)
    (hs : c.step N (.ep l) = some c') : Served host a content c' := by
  have hpeer : PeerOnce a c (.ep l) := by
    cases l with
    | cm event id ret => cases hmay
    | land buf byteLen status => cases hmay
    | cqPoll ret => exact .inl hok
    | cqPollErr => exact hok.elim
    | _ => trivial
  have hecho := h.echo.step (l := .ep l) (fun _ => h.nul) hpeer hs
  have hne := h.server_ne
  obtain ⟨-, ep, he, rfl⟩ := step_ep hs
  obtain ⟨-, hnul, herr, hlive, hstage⟩ := h
  have hnoerr : c.ep.cb.state ≠ error := by
    rcases hstage with hl | hg
    · simp [hl.state]
    · exact hg.state.2
  have hlive' : ep.cb.state ≠ error → CqLive ep := hlive.step he
  cases l with
  | cm event id ret => cases hmay
  | land buf byteLen status => cases hmay
  | cqPollErr => exact hok.elim
  | fail => exact hok.elim
  | breakQp => cases hmay
  | flush =>
      obtain ⟨p, rest, -, hbroken, -⟩ := Endpoint.step_flush he
      simp [herr] at hbroken
  | flushRecv =>
      obtain ⟨-, hbroken, -⟩ := Endpoint.step_flushRecv he
      simp [herr] at hbroken
  | cqEnter =>
      obtain ⟨-, -, rfl⟩ := Endpoint.step_cqEnter he
      refine ⟨hecho, hnul, herr, hlive' hnoerr, ?_⟩
      rcases hstage with hl | hg
      · exact .inl ⟨hl.pc, hl.state, hl.sq, hl.queue⟩
      · exact .inr ⟨hg.pc, hg.state, hg.sq, hg.queue, hg.read, hg.write⟩
  | complete =>
      obtain ⟨p, rest, hsq, -, -, rfl⟩ := Endpoint.step_complete he
      refine ⟨hecho, hnul, herr, hlive' hnoerr, ?_⟩
      rcases hstage with hl | hg
      · simp [hl.sq] at hsq
      · exact .inr (hg.retire hsq)
  | cqPoll ret =>
      obtain rfl : ret = 0 := hok
      obtain ⟨hd, ⟨hq, rfl⟩ | ⟨wc, rest, hq, rfl⟩⟩ := Endpoint.step_poll he
      · refine ⟨hecho, hnul, herr, hlive' hnoerr, ?_⟩
        rcases hstage with hl | hg
        · simp [hl.queue] at hq
        · exact .inr ⟨hg.pc, hg.state, hg.sq, hg.queue, hg.read, hg.write⟩
      · -- either way the server is going after it
        suffices hgoing : Going _ from ⟨hecho, hnul, herr, hlive' hgoing.state.2, .inr hgoing⟩
        rcases hstage with hl | hg
        · exact hl.polled hne hq rfl rfl rfl
        · exact hg.polled hq rfl rfl rfl

/-- `ESTABLISHED` says nothing to the server. -/
theorem Served.established (h : Served host a content c)
    (hs : c.step N (.ep (.cm .established childId 0)) = some c') : Served host a content c' := by
  have hne := h.server_ne
  obtain ⟨-, ep, he, rfl⟩ := step_ep hs
  simp only [Endpoint.step, cm_established hne, Option.some.injEq] at he
  subst he
  exact h

theorem Served.move (h : Served host a content c) (hs : c.step N .move = some c') :
    Served host a content c' := by
  have hecho := h.echo.step (l := .move) (fun _ => h.nul) trivial hs
  obtain ⟨p, rest, hsq, -, -, hep, hpc, -⟩ := step_move hs
  obtain ⟨-, hnul, herr, hlive, hstage⟩ := h
  refine ⟨hecho, hnul, by rw [hep]; exact herr, hlive.congr (by rw [hep]; rfl), ?_⟩
  rcases hstage with hl | hg
  · simp [hl.sq] at hsq
  · have hset : c'.ep.settled = c.ep.settled :=
      settled_congr (by rw [hep]; simp [Endpoint.unhandled, hsq]) (by rw [hep])
    refine .inr ⟨by rw [hpc]; exact hg.pc, by rw [hep]; exact hg.state, ?_,
      by rw [hep]; exact hg.queue, by rw [hpc, hset]; exact hg.read,
      by rw [hpc, hset]; exact hg.write⟩
    intro q hq
    rw [hep] at hq
    rcases List.mem_cons.mp hq with rfl | hq
    · exact hg.sq p (by simp [hsq])
    · exact hg.sq q (by simp [hsq, hq])

/-! ### The main thread -/

/-- A step that posts nothing. -/
theorem Going.go {ep : Endpoint} {pc : ServerPc} (h : Going c) (hpc : GoingPc pc = true)
    (hst : ep.cb.state = c.ep.cb.state) (hsq : ep.sq = c.ep.sq)
    (hq : ep.cq.queue = c.ep.cq.queue) (hread : ∀ i, pc ≠ .readWait i)
    (hwrite : ∀ i, pc ≠ .writeWait i) : Going { c with ep := ep, pc := pc } where
  pc := hpc
  state := by rw [show ({ c with ep := ep, pc := pc } : ServerConfig).ep.cb.state =
    c.ep.cb.state from hst]; exact h.state
  sq := by rw [show ({ c with ep := ep, pc := pc } : ServerConfig).ep.sq = c.ep.sq from hsq]
           exact h.sq
  queue := by rw [show ({ c with ep := ep, pc := pc } : ServerConfig).ep.cq.queue =
    c.ep.cq.queue from hq]; exact h.queue
  read i hi := absurd hi (hread i)
  write i hi := absurd hi (hwrite i)

/-- A step that posts an RDMA operation, whose wait follows. -/
theorem Going.post {pc : ServerPc} {wr : SendWr} {sge : Sge} (h : Going c)
    (hpc : GoingPc pc = true) (hop : wr.opcode.wc.isRdma = true)
    (hread : ∀ i, pc = .readWait i → wr.opcode = .rdmaRead)
    (hwrite : ∀ i, pc = .writeWait i → wr.opcode = .rdmaWrite) :
    Going { c with ep := c.ep.postSend wr sge 0, pc := pc } where
  pc := hpc
  state := h.state
  sq p hp := by
    rcases List.mem_append.mp hp with hp | hp
    · exact h.sq p hp
    · rw [List.mem_singleton.mp hp]
      revert hop
      cases wr.opcode <;> simp [WrOpcode.wc, WcOpcode.isRdma]
  queue := h.queue
  read i hi := by
    show rdmaReadComplete ≤ (c.ep.postSend wr sge 0).settled
    rw [settled_post hop, hread i hi]
    decide
  write i hi := by
    show rdmaWriteComplete ≤ (c.ep.postSend wr sge 0).settled
    rw [settled_post hop, hwrite i hi]
    decide

/-- What is about to be posted. -/
theorem Phase.wrReady (h : Phase host a content c) :
    WrReady host a c.ep.cb.mainFields c.pc := by
  rcases h with h | h | h | h
  · have hpc := h.pc
    revert hpc
    cases c.pc <;> simp [EarlyPc, WrReady]
  · exact h.wr
  · obtain ⟨i, hpc⟩ := h.pc
    rw [hpc]
    trivial
  · exact h.wr

/-- `strlen` finds the NUL of the client. -/
theorem Served.strlen {i : Nat} (h : Served host a content c) (hpc : c.pc = .writeSet i) :
    ∃ n, strlen c.rdmaMem = some n := by
  obtain ⟨j, hj, hz⟩ := h.nul
  rcases h.echo.phase.resolve_left (by simp [h.qpErr]) with hp | hp | hp | hp
  · have := hp.pc
    simp [hpc, EarlyPc] at this
  · have := hp.pc
    simp [hpc, ReadyPc] at this
  · obtain ⟨k, hk⟩ := hp.pc
    simp [hpc] at hk
  · obtain ⟨n, hn, -⟩ := hp.agree.strlen hj hz
    exact ⟨n, hn⟩

theorem serverMain_going {len : Option Nat} {cb₀ : IbContext} {pc₀ : ServerPc}
    (hm : serverMain N len inp cb₀ pc₀ = some (cb, pc, call)) (hpc : GoingPc pc₀ = true) :
    call = .none ∨ ∃ wr sge, call = .postSend wr sge := by
  cases pc₀ <;> cases len <;> grind [serverMain, waitEvent_eq_some, GoingPc]

theorem loopHead_going (N k : Nat) : GoingPc (loopHead N k) = true ∧
    (∀ i, loopHead N k ≠ .readWait i) ∧ ∀ i, loopHead N k ≠ .writeWait i := by
  unfold loopHead
  split <;> exact ⟨rfl, nofun, nofun⟩

/-- The server goes on to the go-ahead. -/
theorem Going.main (hg : Going c) (h : Served host a content c) (hret : inp.ret = 0)
    (hs : c.step N (.main inp) = some c') : Going c' ∨ c'.pc = .disconnect := by
  have hpc := hg.pc
  have hwr := Phase.wrReady (h.echo.phase.resolve_left (by simp [h.qpErr]))
  cases hc : c.pc with
  | acceptWait =>
      obtain ⟨-, rfl⟩ := main_wait (connected ≤ c.ep.cb.state) hs (by rw [hc]; rfl)
      exact .inl (hg.go rfl rfl rfl rfl (by simp) (by simp))
  | acceptTest =>
      simp only [ServerConfig.step, hc, serverMain, hg.state.2, if_false, Option.bind_some,
        applyCall, Endpoint.call, Option.map_some, Option.some.injEq] at hs
      subst hs
      exact .inl (hg.go rfl rfl rfl rfl (by simp) (by simp))
  | startWait =>
      obtain ⟨-, rfl⟩ := main_wait (rdmaReadAdv ≤ c.ep.cb.state) hs (by rw [hc]; rfl)
      obtain ⟨hgo, hread, hwrite⟩ := loopHead_going N 0
      exact .inl (hg.go hgo rfl rfl rfl hread hwrite)
  | readSet i =>
      rw [main_readSet hc, Option.some.injEq] at hs
      subst hs
      exact .inl (hg.go rfl rfl rfl rfl (by simp) (by simp))
  | readPost i =>
      rw [hc] at hwr
      have hop : c.ep.cb.rdmaSqWr.opcode = .rdmaRead := hwr.1
      rw [main_readPost hc, hret, Option.some.injEq] at hs
      subst hs
      exact .inl (hg.post rfl (by rw [hop]; rfl) (fun _ _ => hop) (by simp))
  | readWait i =>
      obtain ⟨-, rfl⟩ := main_wait (rdmaReadComplete ≤ c.ep.cb.state) hs (by rw [hc]; rfl)
      exact .inl (hg.go rfl rfl rfl rfl (by simp) (by simp))
  | writeSet i =>
      obtain ⟨n, hn⟩ := h.strlen hc
      rw [main_writeSet hc hn, Option.some.injEq] at hs
      subst hs
      exact .inl (hg.go rfl rfl rfl rfl (by simp) (by simp))
  | writePost i =>
      rw [hc] at hwr
      have hop : c.ep.cb.rdmaSqWr.opcode = .rdmaWrite := hwr.1
      rw [main_writePost hc, hret, Option.some.injEq] at hs
      subst hs
      exact .inl (hg.post rfl (by rw [hop]; rfl) (by simp) (fun _ _ => hop))
  | writeWait i =>
      obtain ⟨-, rfl⟩ := main_wait (rdmaWriteComplete ≤ c.ep.cb.state) hs
        (by rw [hc]; rfl)
      obtain ⟨hgo, hread, hwrite⟩ := loopHead_going N (i + 1)
      exact .inl (hg.go hgo rfl rfl rfl hread hwrite)
  | goAhead =>
      rw [main_goAhead hc, Option.some.injEq] at hs
      subst hs
      exact .inr rfl
  | _ => simp [hc, GoingPc] at hpc

theorem Served.main (h : Served host a content c) (hret : inp.ret = 0) (hsig : inp.signal = false)
    (hm : serverMain N (MegaVM.strlen c.rdmaMem) inp c.ep.cb c.pc = some (cb, pc, call))
    (hs : c.step N (.main inp) = some c') :
    call.toPeer = [] ∧ (Served host a content c' ∨ c'.pc = .disconnect) := by
  have hecho := h.echo.step (l := .main inp) (fun _ => h.nul) ⟨hret, hsig⟩ hs
  obtain ⟨cb', call', hm', hep, -, -⟩ := step_main_call hs
  rw [hm, Option.some.injEq, Prod.mk.injEq, Prod.mk.injEq] at hm'
  obtain ⟨rfl, rfl, rfl⟩ := hm'
  rcases h.stage with hl | hg
  · -- the advertisement has not been handled
    rw [hl.pc, serverMain, waitEvent_eq_some, hl.state, hsig] at hm
    simp at hm
  · have hcall := serverMain_going hm hg.pc
    have hkeeps : c'.ep.cq = c.ep.cq ∧ c'.ep.draining = c.ep.draining ∧
        c'.ep.qpErr = c.ep.qpErr := by
      rcases hcall with rfl | ⟨wr, sge, rfl⟩ <;>
        simp only [Endpoint.call, Endpoint.postSend, hret, if_true, Option.some.injEq] at hep <;>
        rw [← hep] <;> exact ⟨rfl, rfl, rfl⟩
    obtain ⟨hcq, hd, herr⟩ := hkeeps
    refine ⟨by rcases hcall with rfl | ⟨wr, sge, rfl⟩ <;> rfl, ?_⟩
    rcases hg.main h hret hs with hg' | hdis
    · exact .inl ⟨hecho, h.nul, herr.trans h.qpErr,
        h.live.congr (by simp only [Endpoint.line, hcq, hd]), .inr hg'⟩
    · exact .inr hdis

end Server

end System

end MegaVM
