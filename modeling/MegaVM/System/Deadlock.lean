import Mathlib.Data.Prod.Lex
import MegaVM.System.Joint

/-!
# Deadlock freedom

From every reachable configuration a step leads on, until both run
functions have returned: a main thread that waits with a false condition
waits for a CM event on its way, a completion not handled yet, a SEND
not landed, or the other main thread.

The steps that lead on (`Advances`) go down a lexicographic measure: what
the main threads still have to do, then the CM events under way, the
bytes and SENDs to move, and the completions to handle.
-/

namespace MegaVM

open TestState

namespace System

/-! ## The measure -/

/-- What the server's main thread has before it; `6` statements for an
iteration. -/
def serverRank (N : Nat) : ServerPc → Nat
  | .bindAddr => 6 * N + 24
  | .listen => 6 * N + 23
  | .bindWait => 6 * N + 22
  | .bindTest => 6 * N + 21
  | .setupQp => 6 * N + 20
  | .setupBuffers => 6 * N + 19
  | .postRecv => 6 * N + 18
  | .accept => 6 * N + 17
  | .acceptWait => 6 * N + 16
  | .acceptTest => 6 * N + 15
  | .startWait => 6 * N + 14
  | .readSet i => 6 * (N - i) + 13
  | .readPost i => 6 * (N - i) + 12
  | .readWait i => 6 * (N - i) + 11
  | .writeSet i => 6 * (N - i) + 10
  | .writePost i => 6 * (N - i) + 9
  | .writeWait i => 6 * (N - i) + 8
  | .goAhead => 7
  | .disconnect => 6
  | .freeBuffers => 5
  | .freeQp => 4
  | .destroyChild => 3
  | .destroyListener => 2
  | .freed => 1
  | .oops => 0

def clientRank : ClientPc → Nat
  | .resolveAddr => 17
  | .bindWait => 16
  | .bindTest => 15
  | .setupQp => 14
  | .setupBuffers => 13
  | .postRecv => 12
  | .connect => 11
  | .connectWait => 10
  | .connectTest => 9
  | .testSet => 8
  | .testFill => 7
  | .testPost => 6
  | .testWait => 5
  | .disconnect => 4
  | .freeBuffers => 3
  | .freeQp => 2
  | .destroyId => 1
  | .freed => 0

/-- An event and those its handler causes. -/
def eventCost (event : CmEvent) : Nat := 1 + event.toSelf.length + event.toPeer.length

/-- The bytes of a work request not moved yet, and its completion. -/
def transferCost (p : Posted) : Nat := p.sge.length.toNat - p.moved + 1

def wireCost : Wire → Nat
  | .still => 2
  | .flying _ _ => 1
  | .landed => 0

/-- The turns of the CQ handler. -/
def handlerCost (e : Endpoint) : Nat :=
  e.cq.queue.length + 2 * e.cq.pending + e.draining.toNat

def rank (N : Nat) (s : System) : Nat := serverRank N s.server.pc + clientRank s.client.pc

def events (s : System) : Nat := s.toServer.length + (s.toClient.map eventCost).sum

def transfers (s : System) : Nat :=
  (s.server.ep.sq.map transferCost).sum + (s.client.ep.sq.map transferCost).sum +
    wireCost s.advert

def handlers (s : System) : Nat := handlerCost s.server.ep + handlerCost s.client.ep

def measure (N : Nat) (s : System) : Nat ×ₗ Nat ×ₗ Nat ×ₗ Nat :=
  toLex (rank N s, toLex (events s, toLex (transfers s, handlers s)))

/-- The steps that lead on. -/
def Advances : SysLabel → Prop
  | .serverMain _ | .clientMain _ | .serverCm | .clientCm | .serverMove | .clientMove
  | .transmitAdvert | .landAdvert => True
  | .serverEp l => l = .complete ∨ l = .cqEnter ∨ l = .cqPoll 0
  | .clientEp l => l = .cqPoll 0
  | .transmitGoAhead | .landGoAhead => False

section Measure
variable {N : Nat} {s s' : System}

theorem measure_of_rank (h : rank N s' < rank N s) : measure N s' < measure N s :=
  Prod.Lex.toLex_lt_toLex.mpr (.inl h)

theorem measure_of_events (hr : rank N s' = rank N s) (h : events s' < events s) :
    measure N s' < measure N s :=
  Prod.Lex.toLex_lt_toLex.mpr (.inr ⟨hr, Prod.Lex.toLex_lt_toLex.mpr (.inl h)⟩)

theorem measure_of_transfers (hr : rank N s' = rank N s) (he : events s' = events s)
    (h : transfers s' < transfers s) : measure N s' < measure N s :=
  Prod.Lex.toLex_lt_toLex.mpr (.inr ⟨hr, Prod.Lex.toLex_lt_toLex.mpr
    (.inr ⟨he, Prod.Lex.toLex_lt_toLex.mpr (.inl h)⟩)⟩)

theorem measure_of_handlers (hr : rank N s' = rank N s) (he : events s' = events s)
    (ht : transfers s' = transfers s) (h : handlers s' < handlers s) :
    measure N s' < measure N s :=
  Prod.Lex.toLex_lt_toLex.mpr (.inr ⟨hr, Prod.Lex.toLex_lt_toLex.mpr
    (.inr ⟨he, Prod.Lex.toLex_lt_toLex.mpr (.inr ⟨ht, h⟩)⟩)⟩)

/-- Every statement of the server leads on. -/
theorem serverMain_rank {len : Option Nat} {inp : MainIn} {cb cb' : IbContext}
    {pc pc' : ServerPc} {call : Call} (hm : serverMain N len inp cb pc = some (cb', pc', call)) :
    serverRank N pc' < serverRank N pc := by
  cases serverMain_move hm <;> simp only [serverRank] <;> omega

theorem clientMain_rank {inp : MainIn} {cb cb' : IbContext} {pc pc' : ClientPc} {call : Call}
    (hm : clientMain inp cb pc = some (cb', pc', call)) : clientRank pc' < clientRank pc := by
  cases clientMain_move hm <;> simp only [clientRank] <;> omega

theorem handlerCost_enter {hook : RecvHook} {e e' : Endpoint}
    (h : e.step hook .cqEnter = some e') : e'.sq = e.sq ∧ handlerCost e' < handlerCost e := by
  obtain ⟨hp, hd, rfl⟩ := Endpoint.step_cqEnter h
  refine ⟨rfl, ?_⟩
  have hle : Bool.toNat (decide (e.cb.state ≠ error)) ≤ 1 := Bool.toNat_le _
  simp only [handlerCost, hd, Bool.toNat_false]
  omega

theorem handlerCost_poll {hook : RecvHook} {e e' : Endpoint} {ret : Int}
    (h : e.step hook (.cqPoll ret) = some e') : e'.sq = e.sq ∧ handlerCost e' < handlerCost e := by
  obtain ⟨hd, ⟨-, rfl⟩ | ⟨wc, rest, hq, rfl⟩⟩ := Endpoint.step_poll h
  · refine ⟨rfl, ?_⟩
    simp only [handlerCost, hd, Bool.toNat_false, Bool.toNat_true]
    omega
  · refine ⟨rfl, ?_⟩
    have hle : Bool.toNat (!(drainOne hook e.cb wc ret).stop) ≤ 1 := Bool.toNat_le _
    simp only [handlerCost, hd, hq, List.length_cons, Bool.toNat_true]
    omega

theorem step_measure {l : SysLabel} (hadv : Advances l) (h : step N s l = some s') :
    measure N s' < measure N s := by
  cases l with
  | serverMain inp =>
      obtain ⟨cb, pc, call, c, hm, hs, rfl⟩ := step_serverMain h
      obtain ⟨cb', call', hm', -⟩ := ServerConfig.step_main_call hs
      have hlt := serverMain_rank hm'
      exact measure_of_rank (Nat.add_lt_add_right hlt _)
  | clientMain inp =>
      obtain ⟨cb, pc, call, ep, hm, -, rfl⟩ := step_clientMain h
      exact measure_of_rank (Nat.add_lt_add_left (clientMain_rank hm) _)
  | serverCm =>
      obtain ⟨event, rest, c, hhead, hs, rfl⟩ := step_serverCm h
      have hpc := server_pc hs nofun
      refine measure_of_events (by simp [rank, hpc]) ?_
      simp only [events, hhead, List.length_cons]
      omega
  | clientCm =>
      obtain ⟨event, rest, hhead, -, rfl⟩ := step_clientCm h
      refine measure_of_events rfl ?_
      -- the events its handler causes have been counted in its cost
      have hself : (event.toSelf.map eventCost).sum = event.toSelf.length := by
        cases event <;> rfl
      simp only [events, hhead, List.map_cons, List.sum_cons, List.map_append, List.sum_append,
        List.length_append, hself, eventCost]
      omega
  | serverMove =>
      obtain ⟨c, hs, rfl⟩ := Option.map_eq_some_iff.mp h
      obtain ⟨p, rest, hsq, -, hlt, hep, hpc, -⟩ := ServerConfig.step_move hs
      refine measure_of_transfers (by simp [rank, hpc]) rfl ?_
      simp only [transfers, hep, hsq, List.map_cons, List.sum_cons, transferCost]
      omega
  | clientMove =>
      obtain ⟨ep, he, rfl⟩ := Option.map_eq_some_iff.mp h
      obtain ⟨p, rest, hsq, -, -, hlt, rfl⟩ := Endpoint.sendByte_eq_some he
      refine measure_of_transfers rfl rfl ?_
      simp only [transfers, hsq, List.map_cons, List.sum_cons, transferCost]
      omega
  | transmitAdvert =>
      obtain ⟨wire, hw, rfl⟩ := Option.map_eq_some_iff.mp h
      obtain ⟨p, rest, hstill, -, -, -, -, rfl⟩ := Endpoint.transmit_eq_some hw
      refine measure_of_transfers rfl rfl ?_
      simp only [transfers, hstill, wireCost]
      omega
  | landAdvert =>
      obtain ⟨msg, len, c, hflying, hs, rfl⟩ := step_landAdvert h
      have hpc := server_pc hs nofun
      obtain ⟨-, ep, he, rfl⟩ := ServerConfig.step_ep hs
      obtain ⟨-, -, rfl⟩ := Endpoint.step_land he
      refine measure_of_transfers rfl rfl ?_
      simp only [transfers, hflying, wireCost]
      omega
  | serverEp l =>
      obtain ⟨-, c, hs, rfl⟩ := step_serverEp h
      obtain ⟨-, ep, he, rfl⟩ := ServerConfig.step_ep hs
      rcases hadv with rfl | rfl | rfl
      · obtain ⟨p, rest, hsq, -, -, rfl⟩ := Endpoint.step_complete he
        refine measure_of_transfers rfl rfl ?_
        -- all bytes are moved; the completion was counted with them
        simp only [transfers, hsq, Endpoint.retire, List.map_cons, List.sum_cons, transferCost]
        omega
      · obtain ⟨hsq, hlt⟩ := handlerCost_enter he
        exact measure_of_handlers rfl rfl (by simp only [transfers, hsq])
          (Nat.add_lt_add_right hlt _)
      · obtain ⟨hsq, hlt⟩ := handlerCost_poll he
        exact measure_of_handlers rfl rfl (by simp only [transfers, hsq])
          (Nat.add_lt_add_right hlt _)
  | clientEp l =>
      obtain ⟨-, ep, he, rfl⟩ := step_clientEp h
      obtain rfl : l = .cqPoll 0 := hadv
      obtain ⟨hsq, hlt⟩ := handlerCost_poll he
      exact measure_of_handlers rfl rfl (by simp only [transfers, hsq, Endpoint.wireAfter])
        (Nat.add_lt_add_left hlt _)
  | transmitGoAhead => exact hadv.elim
  | landGoAhead => exact hadv.elim

end Measure

/-! ## A step that leads on -/

def Leads (N : Nat) (s : System) : Prop :=
  ∃ l s', Healthy s l ∧ Advances l ∧ step N s l = some s'

section Leads
variable {N : Nat} {s : System} {client server : Endian} {a : RdmaInfo} {content : Nat → Byte}

theorem leads_of (l : SysLabel) (hok : Healthy s l) (hadv : Advances l)
    (h : (step N s l).isSome = true) : Leads N s := by
  obtain ⟨s', hs⟩ := Option.isSome_iff_exists.mp h
  exact ⟨l, s', hok, hadv, hs⟩

/-- Only the destruction of the queue pair can wait. -/
theorem call_enabled (inp : MainIn) (e : Endpoint) {call : Call}
    (h : call ≠ .destroyQp ∨ e.draining = false) : ∃ e', Endpoint.call inp e call = some e' := by
  cases call with
  | destroyQp =>
      have hd := h.resolve_left (by simp)
      exact ⟨{ e with sq := [], cq := .empty, rq := 0 }, by
        simp [Endpoint.call, Endpoint.destroyQp, hd]⟩
  | _ => exact ⟨_, rfl⟩

theorem leads_server
    (hm : (serverMain N (strlen s.server.rdmaMem) .ok s.server.ep.cb s.server.pc).isSome = true)
    (hqp : s.server.pc ≠ .freeQp ∨ s.server.ep.draining = false) : Leads N s := by
  obtain ⟨⟨cb, pc, call⟩, hm⟩ := Option.isSome_iff_exists.mp hm
  have hcall : call ≠ .destroyQp ∨ s.server.ep.draining = false := by
    refine hqp.imp_left fun hne hcall => hne ?_
    have hmove := serverMain_move hm
    rw [hcall] at hmove
    generalize s.server.pc = p at hmove ⊢
    cases hmove
    rfl
  obtain ⟨ep, he⟩ := call_enabled .ok { s.server.ep with cb := cb } hcall
  refine leads_of (.serverMain .ok) ⟨rfl, rfl⟩ trivial ?_
  simp [step, hm, ServerConfig.step, ServerConfig.applyCall, he]

theorem leads_client (hm : (clientMain .ok s.client.ep.cb s.client.pc).isSome = true)
    (hqp : s.client.pc ≠ .freeQp ∨ s.client.ep.draining = false) : Leads N s := by
  obtain ⟨⟨cb, pc, call⟩, hm⟩ := Option.isSome_iff_exists.mp hm
  have hcall : call ≠ .destroyQp ∨ s.client.ep.draining = false := by
    refine hqp.imp_left fun hne hcall => hne ?_
    have hmove := clientMain_move hm
    rw [hcall] at hmove
    generalize s.client.pc = p at hmove ⊢
    cases hmove
    rfl
  obtain ⟨ep, he⟩ := call_enabled .ok { s.client.ep with cb := cb } hcall
  refine leads_of (.clientMain .ok) ⟨rfl, rfl⟩ trivial ?_
  simp [step, hm, he]

/-- A wait whose condition holds is over. -/
theorem waitEvent_isSome {Pc : Type} {cond : Prop} [Decidable cond] {inp : MainIn}
    {cb : IbContext} {next : Pc} (h : cond) : (waitEvent cond inp cb next).isSome = true := by
  rw [waitEvent, if_pos (.inl h)]
  rfl

theorem leads_clientCm (hev : s.toClient ≠ []) (hpc : s.client.pc ≠ .freed) : Leads N s := by
  obtain ⟨event, rest, hhead⟩ := List.exists_cons_of_ne_nil hev
  refine leads_of .clientCm trivial trivial ?_
  simp [step, hhead, hpc]

/-- The server's handler polls or starts. -/
theorem leads_handler (hlive : CqLive s.server.ep) (hst : s.server.ep.cb.state ≠ error)
    (hq : s.server.ep.cq.queue ≠ []) : Leads N s := by
  obtain ⟨wc, rest, hhead⟩ := List.exists_cons_of_ne_nil hq
  cases hd : s.server.ep.draining with
  | true =>
      refine leads_of (.serverEp (.cqPoll 0)) rfl (.inr (.inr rfl)) ?_
      simp [step, Endpoint.mayMove, ServerConfig.step, ServerConfig.cmOpen, Endpoint.step,
        Endpoint.cqPoll, hd, hhead]
  | false =>
      have hp := (hlive.handler hq).resolve_right (by simp [hd])
      refine leads_of (.serverEp .cqEnter) trivial (.inr (.inl rfl)) ?_
      simp [step, Endpoint.mayMove, ServerConfig.step, ServerConfig.cmOpen, Endpoint.step,
        Endpoint.cqEnter, hd, hp, hst]

/-- The server's HCA moves a byte of the oldest transfer or completes it. -/
theorem leads_transfer {p : Posted} {rest : List Posted} (hsq : s.server.ep.sq = p :: rest)
    (hop : p.wr.opcode ≠ .send) (herr : s.server.ep.qpErr = false) : Leads N s := by
  by_cases hdone : p.sge.length.toNat ≤ p.moved
  · refine leads_of (.serverEp .complete) trivial (.inl rfl) ?_
    have hsend : s.server.ep.oldestSend = false := by simp [Endpoint.oldestSend, hsq, hop]
    simp [step, Endpoint.mayMove, hsend, ServerConfig.step, ServerConfig.cmOpen, Endpoint.step,
      hsq, herr, Nat.not_lt.mpr hdone]
  · have hmove : ∃ c, s.server.step N .move = some c := by
      simp only [ServerConfig.step, ServerConfig.moveByte, hsq, herr, Bool.false_eq_true,
        false_or, if_neg hdone]
      cases p.wr.opcode <;> exact ⟨_, rfl⟩
    obtain ⟨c, hc⟩ := hmove
    exact leads_of .serverMove trivial trivial (by simp [step, hc])

/-! ### Phase by phase -/

theorem opening_leads {toClient : List CmEvent} (hbind : Binding s.client toClient)
    (hev : s.toClient = toClient) : Leads N s := by
  cases hbind with
  | start hpc => exact leads_client (by rw [hpc]; rfl) (.inl (by simp [hpc]))
  | address hpc => exact leads_clientCm (by simp [hev]) (by simp [hpc])
  | route hpc => exact leads_clientCm (by simp [hev]) (by simp [hpc])
  | bound hpc hst =>
      rcases hpc with hpc | hpc | hpc | hpc | hpc | hpc
      · refine leads_client ?_ (.inl (by simp [hpc]))
        rw [hpc, clientMain]
        exact waitEvent_isSome (by rw [hst]; decide)
      all_goals exact leads_client (by rw [hpc]; rfl) (.inl (by simp [hpc]))

theorem requested_leads (hopen : Opening s.server) (hev : s.toServer = [.connectRequest]) :
    Leads N s := by
  rcases hopen.pc with hpc | hpc | hpc
  · exact leads_server (by rw [hpc]; rfl) (.inl (by simp [hpc]))
  · exact leads_server (by rw [hpc]; rfl) (.inl (by simp [hpc]))
  · -- the server waits, and the request can be delivered
    have hlisten := hopen.listening.mpr hpc
    refine leads_of .serverCm trivial trivial ?_
    simp [step, hev, ServerConfig.step, ServerConfig.cmOpen, hlisten, Endpoint.step]

theorem setting_leads (hset : Setting s.server) : Leads N s := by
  rcases hset.pc with hpc | hpc | hpc | hpc | hpc | hpc
  · refine leads_server ?_ (.inl (by simp [hpc]))
    rw [hpc, serverMain]
    exact waitEvent_isSome (by rw [hset.state]; decide)
  all_goals exact leads_server (by rw [hpc]; rfl) (.inl (by simp [hpc]))

theorem sending_leads (hsend : Sending s.client) : Leads N s := by
  cases hsend with
  | before hpc hst =>
      rcases hpc with hpc | hpc | hpc
      · refine leads_client ?_ (.inl (by simp [hpc]))
        rw [hpc, clientMain]
        exact waitEvent_isSome (by rw [hst]; decide)
      all_goals exact leads_client (by rw [hpc]; rfl) (.inl (by simp [hpc]))
  | prepared hpc =>
      rcases hpc with hpc | hpc <;> exact leads_client (by rw [hpc]; rfl) (.inl (by simp [hpc]))

theorem sent_leads (hadv : Advertising s.client) (hcalm : Calm server a content s.server)
    (hacc : Accepted s.server)
    (hadvert : s.advert = .still ∨ s.advert = .flying s.client.ep.cb.sendBuf sizeofRdmaInfo) :
    Leads N s := by
  obtain ⟨p, hp, -⟩ := hadv.out
  have hop := hadv.waiting.sq p (by simp [hp])
  have herr := hadv.waiting.qpErr
  rcases hadvert with hw | hw
  · by_cases hdone : p.sge.length.toNat ≤ p.moved
    · refine leads_of .transmitAdvert trivial trivial ?_
      simp [step, Endpoint.transmit, hw, hp, herr, hop, Nat.not_lt.mpr hdone]
    · refine leads_of .clientMove trivial trivial ?_
      simp [step, Endpoint.sendByte, hp, herr, hop, hdone]
  · refine leads_of .landAdvert trivial trivial ?_
    simp [step, hw, ServerConfig.step, ServerConfig.cmOpen, Endpoint.step, hacc.recv,
      hcalm.idle.qpErr]

/-- Something is out that ends the wait the server is in. -/
theorem Going.unsettled (hg : Going s.server) (hserved : Served server a content s.server)
    (hne : s.server.ep.cb.state ≠ s.server.ep.settled) : Leads N s := by
  rcases unhandled_of_settled hne with hsq | hq
  · obtain ⟨p, rest, hp⟩ := List.exists_cons_of_ne_nil hsq
    exact leads_transfer hp (hg.sq p (by simp [hp])) hserved.qpErr
  · exact leads_handler hserved.live hg.state.2 hq

theorem serving_leads (hserved : Served server a content s.server) : Leads N s := by
  rcases hserved.stage with hl | hg
  · exact leads_handler hserved.live (by simp [hl.state]) (by simp [hl.queue])
  have hpc := hg.pc
  have hst := hg.state.1
  cases hc : s.server.pc with
  | acceptWait =>
      refine leads_server ?_ (.inl (by simp [hc]))
      rw [hc, serverMain]
      exact waitEvent_isSome (Nat.le_trans (by decide) hst)
  | acceptTest => exact leads_server (by rw [hc]; rfl) (.inl (by simp [hc]))
  | startWait =>
      refine leads_server ?_ (.inl (by simp [hc]))
      rw [hc, serverMain]
      exact waitEvent_isSome hst
  | readSet i => exact leads_server (by rw [hc]; rfl) (.inl (by simp [hc]))
  | readPost i => exact leads_server (by rw [hc]; rfl) (.inl (by simp [hc]))
  | readWait i =>
      by_cases hgo : rdmaReadComplete ≤ s.server.ep.cb.state
      · refine leads_server ?_ (.inl (by simp [hc]))
        rw [hc, serverMain]
        exact waitEvent_isSome hgo
      · exact hg.unsettled hserved fun heq => hgo (heq ▸ hg.read i hc)
  | writeSet i =>
      obtain ⟨n, hn⟩ := hserved.strlen hc
      refine leads_server ?_ (.inl (by simp [hc]))
      rw [hc, hn]
      rfl
  | writePost i => exact leads_server (by rw [hc]; rfl) (.inl (by simp [hc]))
  | writeWait i =>
      by_cases hgo : rdmaWriteComplete ≤ s.server.ep.cb.state
      · refine leads_server ?_ (.inl (by simp [hc]))
        rw [hc, serverMain]
        exact waitEvent_isSome hgo
      · exact hg.unsettled hserved fun heq => hgo (heq ▸ hg.write i hc)
  | goAhead => exact leads_server (by rw [hc]; rfl) (.inl (by simp [hc]))
  | _ => simp [hc, GoingPc] at hpc

theorem late_leads (h : Late s) : s.Returned ∨ Leads N s := by
  have hserver := h.server
  have hclient := h.client
  by_cases hret : serverReturned s.server.pc = true
  · cases hc : s.client.pc with
    | testWait =>
        refine .inr ?_
        rcases h.wait hc with hdis | hev | hst
        · simp [hdis, serverReturned] at hret
        · exact leads_clientCm (List.ne_nil_of_mem hev) (by simp [hc])
        · refine leads_client ?_ (.inl (by simp [hc]))
          rw [hc, clientMain]
          exact waitEvent_isSome hst
    | disconnect => exact .inr (leads_client (by rw [hc]; rfl) (.inl (by simp [hc])))
    | freeBuffers => exact .inr (leads_client (by rw [hc]; rfl) (.inl (by simp [hc])))
    | freeQp =>
        cases hd : s.client.ep.draining with
        | false => exact .inr (leads_client (by rw [hc]; rfl) (.inr hd))
        | true =>
            have hpoll : ∃ ep, s.client.ep.step clientHook (.cqPoll 0) = some ep := by
              simp only [Endpoint.step, Endpoint.cqPoll, hd, if_true]
              cases s.client.ep.cq.queue <;> exact ⟨_, rfl⟩
            obtain ⟨ep, he⟩ := hpoll
            exact .inr (leads_of (.clientEp (.cqPoll 0)) rfl rfl
              (by simp [step, Endpoint.mayMove, he]))
    | destroyId => exact .inl ⟨hret, by rw [hc]; rfl⟩
    | freed => exact .inl ⟨hret, by rw [hc]; rfl⟩
    | _ => simp [hc, LateClient] at hclient
  · refine .inr ?_
    cases hc : s.server.pc with
    | disconnect => exact leads_server (by rw [hc]; rfl) (.inl (by simp [hc]))
    | freeBuffers => exact leads_server (by rw [hc]; rfl) (.inl (by simp [hc]))
    | freeQp =>
        cases hd : s.server.ep.draining with
        | false => exact leads_server (by rw [hc]; rfl) (.inr hd)
        | true =>
            have hpoll : ∃ ep, s.server.ep.step serverHook (.cqPoll 0) = some ep := by
              simp only [Endpoint.step, Endpoint.cqPoll, hd, if_true]
              cases s.server.ep.cq.queue <;> exact ⟨_, rfl⟩
            obtain ⟨ep, he⟩ := hpoll
            exact leads_of (.serverEp (.cqPoll 0)) rfl (.inr (.inr rfl))
              (by simp [step, Endpoint.mayMove, ServerConfig.step, ServerConfig.cmOpen, he])
    | destroyChild => exact leads_server (by rw [hc]; rfl) (.inl (by simp [hc]))
    | destroyListener => simp [hc, serverReturned] at hret
    | freed => simp [hc, serverReturned] at hret
    | _ => simp [hc, LateServer] at hserver

/-- In every phase a step leads on. -/
theorem Joint.leads (h : Joint client server s) : s.Returned ∨ Leads N s := by
  cases h with
  | opening hbase hidle hbind => exact .inr (opening_leads hbind rfl)
  | requested hbase hidle hconn hcalm hopen hev => exact .inr (requested_leads hopen hev)
  | setting hbase hidle hconn hcalm hset => exact .inr (setting_leads hset)
  | accepted hbase hidle hconn hcalm hacc hev hev' =>
      exact .inr (leads_clientCm (by simp [hev']) (by simp [hconn.pc]))
  | sending hbase hidle hsend => exact .inr (sending_leads hsend)
  | sent hadv ha hhost hcalm hnul hacc hev hev' hadvert =>
      exact .inr (sent_leads hadv hcalm hacc hadvert)
  | serving hwait hserved => exact .inr (serving_leads hserved)
  | late h => exact late_leads h

end Leads

/-- **Deadlock freedom.** In every reachable configuration both run
functions have returned or a step is enabled; and no main thread is
blocked for good, since from every reachable configuration some run leads
to one in which both have returned. -/
theorem deadlock_free {N : Nat} {client server : Endian} {mem : List Byte}
    {remote : BitVec 64 → Byte} {s : System} (hmem : bufSize ≤ mem.length)
    (h : Runs.Reach (step N) Healthy (init client server mem remote) s) :
    (s.Returned ∨ ∃ l s', Healthy s l ∧ step N s l = some s') ∧
      ∃ s', Runs.Reach (step N) Healthy s s' ∧ s'.Returned := by
  have hjoint := joint_of_reach hmem h
  constructor
  · rcases hjoint.leads (N := N) with hret | ⟨l, s', hok, -, hs⟩
    · exact .inl hret
    · exact .inr ⟨l, s', hok, hs⟩
  · refine Runs.finishes_of_progress (Joint client server) Returned (measure N)
      (fun _ _ _ hj hok hs => hj.step hok hs) ?_ hjoint
    intro s₁ hj
    rcases hj.leads (N := N) with hret | ⟨l, s', hok, hadv, hs⟩
    · exact .inl hret
    · exact .inr ⟨l, s', hok, hs, step_measure hadv hs⟩

/-- The client has asked for the connection before the server runs. -/
def eagerClient : List SysLabel :=
  [.clientMain .ok, .clientCm, .clientCm] ++ List.replicate 6 (.clientMain .ok)

theorem deadlock_free_eager : ∃ s,
    Runs.Reach (step 10) Healthy (init .little .big (List.replicate 64 0) fun _ => 0) s ∧
      s.client.pc = .connectWait ∧ s.server.pc = .bindAddr ∧
      ∃ s', Runs.Reach (step 10) Healthy s s' ∧ s'.Returned := by
  obtain ⟨s, hrun, hclient, hserver⟩ : ∃ s, Runs.exec (step 10) Healthy
      (init .little .big (List.replicate 64 0) fun _ => 0) eagerClient = some s ∧
      s.client.pc = .connectWait ∧ s.server.pc = .bindAddr := ⟨_, rfl, rfl, rfl⟩
  have hreach := Runs.reach_of_exec hrun
  exact ⟨s, hreach, hclient, hserver, (deadlock_free (by decide) hreach).2⟩

end System

end MegaVM
