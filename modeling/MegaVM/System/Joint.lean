import MegaVM.System.Serving

/-!
# The joint invariant

Where the two sides are together (`Joint`): the phases follow the
messages, and each says where either main thread is, what its context
holds and what is under way between them. Only after the go-ahead do the
sides no longer depend on each other (`Late`), but for the client's last
wait, which ends at the latest with the server's disconnect.
-/

namespace MegaVM

open TestState

namespace System

/-! ## The client that waits for the go-ahead -/

structure Waiting (c : ClientConfig) : Prop where
  pc : c.pc = .testWait
  state : c.ep.cb.state = rdmaReadAdv
  qpErr : c.ep.qpErr = false
  sq : ∀ p ∈ c.ep.sq, p.wr.opcode = .send
  queue : ∀ wc ∈ c.ep.cq.queue, wc.status = .success ∧ wc.opcode = .send

/-- The advertisement is posted and has not landed. -/
structure Advertising (c : ClientConfig) : Prop where
  waiting : Waiting c
  out : ∃ p, c.ep.sq = [p] ∧ p.sge.length = sizeofRdmaInfo
  queue : c.ep.cq.queue = []
  pending : c.ep.cq.pending = 0
  draining : c.ep.draining = false

section Client
variable {c : ClientConfig} {inp : MainIn} {ep : Endpoint} {wire : Wire} {l : EpLabel}

theorem Waiting.blocked (h : Waiting c) (hsig : inp.signal = false) :
    clientMain inp c.ep.cb c.pc = none := by
  rw [h.pc, clientMain, waitEvent, if_neg]
  simp [h.state, hsig]

/-- The client's SEND completes, and the handler counts it. -/
theorem Waiting.endpoint (h : Waiting c) (hmay : c.ep.mayMove wire false l = true)
    (hok : l.healthy)
    (hs : c.ep.step clientHook l = some ep) : Waiting ⟨ep, c.pc⟩ := by
  obtain ⟨hpc, hst, herr, hsq, hqueue⟩ := h
  cases l with
  | cm event id ret => cases hmay
  | land buf byteLen status => cases hmay
  | cqPollErr => exact hok.elim
  | fail => exact hok.elim
  | breakQp => cases hmay
  | flush =>
      obtain ⟨p, rest, -, hbroken, -⟩ := Endpoint.step_flush hs
      simp [herr] at hbroken
  | flushRecv =>
      obtain ⟨-, hbroken, -⟩ := Endpoint.step_flushRecv hs
      simp [herr] at hbroken
  | cqEnter =>
      obtain ⟨-, -, rfl⟩ := Endpoint.step_cqEnter hs
      exact ⟨hpc, hst, herr, hsq, hqueue⟩
  | complete =>
      obtain ⟨p, rest, hp, -, -, rfl⟩ := Endpoint.step_complete hs
      have hop := hsq p (by simp [hp])
      refine ⟨hpc, hst, herr, fun q hq => hsq q (by simp [hp, show q ∈ rest from hq]), ?_⟩
      intro wc hwc
      simp only [Endpoint.retire, Cq.add_queue, List.mem_append, List.mem_singleton] at hwc
      rcases hwc with hwc | rfl
      · exact hqueue wc hwc
      · exact ⟨rfl, by rw [hop]; rfl⟩
  | cqPoll ret =>
      obtain ⟨-, ⟨-, rfl⟩ | ⟨wc, rest, hq, rfl⟩⟩ := Endpoint.step_poll hs
      · exact ⟨hpc, hst, herr, hsq, hqueue⟩
      · obtain ⟨hsuccess, hop⟩ := hqueue wc (by simp [hq])
        refine ⟨hpc, ?_, herr, hsq, fun w hw => hqueue w (by simp [hq, show w ∈ rest from hw])⟩
        simp only [drainOne, hsuccess, hop]
        exact hst

theorem Waiting.sendByte (h : Waiting c) (hs : c.ep.sendByte = some ep) :
    Waiting ⟨ep, c.pc⟩ := by
  obtain ⟨p, rest, hp, -, hop, -, rfl⟩ := Endpoint.sendByte_eq_some hs
  refine ⟨h.pc, h.state, h.qpErr, ?_, h.queue⟩
  intro q hq
  rcases List.mem_cons.mp hq with rfl | hq
  · exact hop
  · exact h.sq q (by simp [hp, hq])

/-- Until it lands the SEND does not complete. -/
theorem Advertising.no_ep (h : Advertising c) (hwire : wire ≠ .landed)
    (hmay : c.ep.mayMove wire false l = true)
    (hok : l.healthy) : c.ep.step clientHook l = none := by
  obtain ⟨hwait, ⟨p, hp, -⟩, hq, hpending, hd⟩ := h
  have herr := hwait.qpErr
  have hop := hwait.sq p (by simp [hp])
  cases l with
  | cm event id ret => cases hmay
  | land buf byteLen status => cases hmay
  | cqPollErr => exact hok.elim
  | fail => exact hok.elim
  | breakQp => cases hmay
  | complete =>
      simp only [Endpoint.mayMove, Endpoint.oldestSend, hp, hop, beq_self_eq_true, Bool.not_true,
        Bool.false_or, beq_iff_eq] at hmay
      exact absurd hmay hwire
  | flush => simp [Endpoint.step, hp, herr]
  | flushRecv => simp [Endpoint.step, herr]
  | cqEnter => simp [Endpoint.step, Endpoint.cqEnter, hpending]
  | cqPoll ret => simp [Endpoint.step, Endpoint.cqPoll, hd]

theorem Advertising.sendByte (h : Advertising c) (hs : c.ep.sendByte = some ep) :
    Advertising ⟨ep, c.pc⟩ := by
  have hwait := h.waiting.sendByte hs
  obtain ⟨p, rest, hp, -, -, -, rfl⟩ := Endpoint.sendByte_eq_some hs
  obtain ⟨-, ⟨q, hq, hlen⟩, hqueue, hpending, hd⟩ := h
  obtain ⟨rfl, rfl⟩ := List.cons.inj (hp.symm.trans hq)
  exact ⟨hwait, ⟨_, rfl, hlen⟩, hqueue, hpending, hd⟩

/-- The SEND of the client's page. -/
theorem Sending.post {host : Endian} (h : Sending c) (hb : ClientBase host c) (hi : Idle c.ep)
    (hpc : c.pc = .testPost) (hret : inp.ret = 0)
    (he : Endpoint.call inp c.ep (.postSend c.ep.cb.sqWr c.ep.cb.sendSgl) = some ep) :
    Advertising ⟨ep, .testWait⟩ ∧ ep.cb = c.ep.cb := by
  have hst : c.ep.cb.state = rdmaReadAdv := by
    cases h with
    | before hpc' => simp [hpc] at hpc'
    | prepared _ hst => exact hst
  have hop : c.ep.cb.sqWr.opcode = .send := hb.sqWr
  have hlen : c.ep.cb.sendSgl.length = sizeofRdmaInfo := hb.sendSgl (by rw [hpc]; rfl)
  simp only [Endpoint.call, Endpoint.postSend, hret, if_true, Option.some.injEq] at he
  subst he
  refine ⟨⟨⟨rfl, hst, hi.qpErr, ?_, ?_⟩, ⟨_, by rw [hi.sq]; rfl, hlen⟩, hi.queue, hi.pending,
    hi.draining⟩, rfl⟩
  · simp [hi.sq, hop]
  · simp [hi.queue]

end Client

/-! ## After the go-ahead -/

/-- The points behind the go-ahead. -/
def LateServer : ServerPc → Bool
  | .disconnect | .freeBuffers | .freeQp | .destroyChild | .destroyListener | .freed => true
  | _ => false

/-- The points behind the advertisement. -/
def LateClient : ClientPc → Bool
  | .testWait | .disconnect | .freeBuffers | .freeQp | .destroyId | .freed => true
  | _ => false

structure Late (s : System) : Prop where
  server : LateServer s.server.pc = true
  client : LateClient s.client.pc = true
  sends : ∀ p ∈ s.client.ep.sq, p.wr.opcode = .send
  reads : ∀ wc ∈ s.client.ep.cq.queue, wc.opcode ≠ .rdmaRead
  events : ∀ event ∈ s.toClient, event = .disconnected
  /-- The client's last wait. -/
  wait : s.client.pc = .testWait →
    s.server.pc = .disconnect ∨ .disconnected ∈ s.toClient ∨ rdmaWriteAdv ≤ s.client.ep.cb.state

/-! ## The phases -/

/-- Nothing is on the wire. -/
def Still (s : System) : Prop := s.advert = .still ∧ s.goAhead = .still

/-- What the server is told after the accept. -/
def Told (events : List CmEvent) : Prop := ∀ event ∈ events, event = .established

section Joint
variable (client server : Endian)

inductive Joint (s : System) : Prop
  /-- The client resolves; the server opens. -/
  | opening {a : RdmaInfo} {content : Nat → Byte} (hbase : ClientBase client s.client)
      (hidle : Idle s.client.ep) (hbind : Binding s.client s.toClient)
      (hcalm : Calm server a content s.server) (hopen : Opening s.server)
      (hev : s.toServer = []) (hwire : Still s)
  /-- The request is under way. -/
  | requested {a : RdmaInfo} {content : Nat → Byte} (hbase : ClientBase client s.client)
      (hidle : Idle s.client.ep) (hconn : Connecting s.client)
      (hcalm : Calm server a content s.server) (hopen : Opening s.server)
      (hev : s.toServer = [.connectRequest]) (hev' : s.toClient = []) (hwire : Still s)
  /-- The server sets up the session. -/
  | setting {a : RdmaInfo} {content : Nat → Byte} (hbase : ClientBase client s.client)
      (hidle : Idle s.client.ep) (hconn : Connecting s.client)
      (hcalm : Calm server a content s.server) (hset : Setting s.server)
      (hev : s.toServer = []) (hev' : s.toClient = []) (hwire : Still s)
  /-- The reply is under way. -/
  | accepted {a : RdmaInfo} {content : Nat → Byte} (hbase : ClientBase client s.client)
      (hidle : Idle s.client.ep) (hconn : Connecting s.client)
      (hcalm : Calm server a content s.server) (hacc : Accepted s.server)
      (hev : s.toServer = []) (hev' : s.toClient = [.established]) (hwire : Still s)
  /-- The client prepares its page. -/
  | sending {a : RdmaInfo} {content : Nat → Byte} (hbase : ClientBase client s.client)
      (hidle : Idle s.client.ep) (hsend : Sending s.client)
      (hpage : s.client.pc = .testPost →
        Page server (s.client.ep.cb.sendBuf.carry client server) s.server.remoteMem)
      (hcalm : Calm server a content s.server) (hacc : Accepted s.server)
      (hev : Told s.toServer) (hev' : s.toClient = []) (hwire : Still s)
  /-- The advertisement is under way. -/
  | sent {a : RdmaInfo} {content : Nat → Byte} (hadv : Advertising s.client)
      (ha : a = s.client.ep.cb.sendBuf.carry client server)
      (hhost : s.client.ep.cb.host = client) (hcalm : Calm server a content s.server)
      (hnul : ∃ j < a.len server, content j = 0) (hacc : Accepted s.server)
      (hev : Told s.toServer) (hev' : s.toClient = [])
      (hadvert : s.advert = .still ∨
        s.advert = .flying s.client.ep.cb.sendBuf sizeofRdmaInfo)
      (hwire : s.goAhead = .still)
  /-- The server runs its loop. -/
  | serving {a : RdmaInfo} {content : Nat → Byte} (hwait : Waiting s.client)
      (hserved : Served server a content s.server)
      (hev : Told s.toServer) (hev' : s.toClient = [])
      (hadvert : (s.advert = .landed ∧ ∃ p, s.client.ep.sq = [p]) ∨
        (s.advert = .still ∧ s.client.ep.sq = []))
      (hwire : s.goAhead = .still)
  | late (h : Late s)

end Joint

/-! ## The steps of each phase -/

section Steps
variable {N : Nat} {s s' : System} {l : SysLabel} {client server : Endian} {a : RdmaInfo}
  {content : Nat → Byte}

/-- Two ends with nothing to do leave the main threads and the CM. -/
theorem idle_step (hserver : Idle s.server.ep) (hclient : Idle s.client.ep) (hwire : Still s)
    (h : step N s l = some s') :
    (∃ inp, l = .serverMain inp) ∨ (∃ inp, l = .clientMain inp) ∨ l = .serverCm ∨
      l = .clientCm := by
  obtain ⟨hadvert, hgoAhead⟩ := hwire
  cases l with
  | serverMain inp => exact .inl ⟨inp, rfl⟩
  | clientMain inp => exact .inr (.inl ⟨inp, rfl⟩)
  | serverCm => exact .inr (.inr (.inl rfl))
  | clientCm => exact .inr (.inr (.inr rfl))
  | serverEp l =>
      obtain ⟨hmay, c, hs, -⟩ := step_serverEp h
      rw [hclient.qpErr] at hmay
      obtain ⟨-, ep, he, -⟩ := ServerConfig.step_ep hs
      rw [hserver.no_ep hmay] at he
      cases he
  | clientEp l =>
      obtain ⟨hmay, ep, he, -⟩ := step_clientEp h
      rw [hserver.qpErr] at hmay
      rw [hclient.no_ep hmay] at he
      cases he
  | serverMove =>
      simp [step, ServerConfig.step, ServerConfig.moveByte, hserver.sq] at h
  | clientMove => simp [step, Endpoint.sendByte, hclient.sq] at h
  | transmitAdvert => simp [step, Endpoint.transmit, hadvert, hclient.sq] at h
  | transmitGoAhead => simp [step, Endpoint.transmit, hgoAhead, hserver.sq] at h
  | landAdvert => simp [step, hadvert] at h
  | landGoAhead => simp [step, hgoAhead] at h

/-- A step while the client binds and the server opens: both ends are idle,
nothing is on the wire and no event is on its way to the server. -/
theorem opening_step {a : RdmaInfo} {content : Nat → Byte} (hbase : ClientBase client s.client)
    (hidle : Idle s.client.ep) (hbind : Binding s.client s.toClient)
    (hcalm : Calm server a content s.server) (hopen : Opening s.server)
    (hev : s.toServer = []) (hwire : Still s) (hok : Healthy s l) (h : step N s l = some s') :
    Joint client server s' := by
  rcases idle_step hcalm.idle hidle hwire h with ⟨inp, rfl⟩ | ⟨inp, rfl⟩ | rfl | rfl
  · obtain ⟨cb, pc, call, c, hm, hs, rfl⟩ := step_serverMain h
    obtain ⟨hopen', hloop, hcall⟩ := hopen.main hok.1 hok.2 hm hs
    have hcalm' := hcalm.main hloop hok.1 hok.2 hm
      (by rcases hcall with rfl | rfl <;> exact ⟨nofun, nofun, nofun⟩) hs
    have hpeer : call.toPeer = [] := by rcases hcall with rfl | rfl <;> rfl
    exact .opening hbase hidle (by rw [hpeer, List.append_nil]; exact hbind) hcalm' hopen' hev
      hwire
  · obtain ⟨cb, pc, call, ep, hm, he, rfl⟩ := step_clientMain h
    have hbase' := hbase.main hm he
    obtain ⟨hidle', hstore, hnext⟩ := hbind.main hidle hok.1 hok.2 hm he
    simp only [hstore]
    rcases hnext with ⟨hbind', hpeer⟩ | ⟨hconn, hself, hpeer⟩
    · rw [hpeer, List.append_nil]
      exact .opening hbase' hidle' hbind' hcalm hopen hev hwire
    -- `rdma_connect`: the request is on its way
    · rw [hpeer, hself, hev]
      exact .requested hbase' hidle' hconn hcalm hopen rfl rfl hwire
  · obtain ⟨event, rest, c, hhead, -⟩ := step_serverCm h
    simp [hev] at hhead
  · obtain ⟨event, rest, hhead, -, rfl⟩ := step_clientCm h
    rw [hhead] at hbind
    obtain ⟨hbind', hpeer⟩ := hbind.cm
    rw [hpeer, List.append_nil]
    exact .opening (hbase.of_mainFields (cmaEventHandler_mainFields _ _ _ _)) (hidle.cm _ _ _)
      hbind' hcalm hopen hev hwire

theorem requested_step (hbase : ClientBase client s.client)
    (hidle : Idle s.client.ep) (hconn : Connecting s.client)
    (hcalm : Calm server a content s.server) (hopen : Opening s.server)
    (hev : s.toServer = [.connectRequest]) (hev' : s.toClient = []) (hwire : Still s)
    (hok : Healthy s l) (h : step N s l = some s') : Joint client server s' := by
  rcases idle_step hcalm.idle hidle hwire h with ⟨inp, rfl⟩ | ⟨inp, rfl⟩ | rfl | rfl
  · obtain ⟨cb, pc, call, c, hm, hs, rfl⟩ := step_serverMain h
    obtain ⟨hopen', hloop, hcall⟩ := hopen.main hok.1 hok.2 hm hs
    have hcalm' := hcalm.main hloop hok.1 hok.2 hm
      (by rcases hcall with rfl | rfl <;> exact ⟨nofun, nofun, nofun⟩) hs
    have hpeer : call.toPeer = [] := by rcases hcall with rfl | rfl <;> rfl
    exact .requested hbase hidle hconn hcalm' hopen' hev (by rw [hpeer, hev']; rfl) hwire
  · obtain ⟨cb, pc, call, ep, hm, -, -⟩ := step_clientMain h
    -- the client waits for the reply
    rw [hconn.blocked hok.2] at hm
    cases hm
  · obtain ⟨event, rest, c, hhead, hs, rfl⟩ := step_serverCm h
    obtain ⟨rfl, rfl⟩ := List.cons.inj (hev.symm.trans hhead)
    obtain ⟨hcalm', hset⟩ := hopen.request hcalm hs
    exact .setting hbase hidle hconn hcalm' hset rfl hev' hwire
  · obtain ⟨event, rest, hhead, -⟩ := step_clientCm h
    simp [hev'] at hhead

theorem setting_step (hbase : ClientBase client s.client)
    (hidle : Idle s.client.ep) (hconn : Connecting s.client)
    (hcalm : Calm server a content s.server) (hset : Setting s.server)
    (hev : s.toServer = []) (hev' : s.toClient = []) (hwire : Still s)
    (hok : Healthy s l) (h : step N s l = some s') : Joint client server s' := by
  rcases idle_step hcalm.idle hidle hwire h with ⟨inp, rfl⟩ | ⟨inp, rfl⟩ | rfl | rfl
  · obtain ⟨cb, pc, call, c, hm, hs, rfl⟩ := step_serverMain h
    obtain ⟨hloop, hnext⟩ := hset.main hok.1 hm hs
    rcases hnext with ⟨hset', hcall⟩ | ⟨hacc, id, rfl⟩
    · have hcalm' := hcalm.main hloop hok.1 hok.2 hm
        (by rcases hcall with rfl | rfl | ⟨id, rfl⟩ <;> exact ⟨nofun, nofun, nofun⟩) hs
      have hpeer : call.toPeer = [] := by rcases hcall with rfl | rfl | ⟨id, rfl⟩ <;> rfl
      exact .setting hbase hidle hconn hcalm' hset' hev (by rw [hpeer, hev']; rfl) hwire
    · have hcalm' := hcalm.main hloop hok.1 hok.2 hm ⟨nofun, nofun, nofun⟩ hs
      exact .accepted hbase hidle hconn hcalm' hacc hev (by rw [hev']; rfl) hwire
  · obtain ⟨cb, pc, call, ep, hm, -, -⟩ := step_clientMain h
    rw [hconn.blocked hok.2] at hm
    cases hm
  · obtain ⟨event, rest, c, hhead, -⟩ := step_serverCm h
    simp [hev] at hhead
  · obtain ⟨event, rest, hhead, -⟩ := step_clientCm h
    simp [hev'] at hhead

theorem accepted_step (hbase : ClientBase client s.client)
    (hidle : Idle s.client.ep) (hconn : Connecting s.client)
    (hcalm : Calm server a content s.server) (hacc : Accepted s.server)
    (hev : s.toServer = []) (hev' : s.toClient = [.established]) (hwire : Still s)
    (hok : Healthy s l) (h : step N s l = some s') : Joint client server s' := by
  rcases idle_step hcalm.idle hidle hwire h with ⟨inp, rfl⟩ | ⟨inp, rfl⟩ | rfl | rfl
  · obtain ⟨cb, pc, call, c, hm, -, -⟩ := step_serverMain h
    rw [hacc.blocked hok.2] at hm
    cases hm
  · obtain ⟨cb, pc, call, ep, hm, -, -⟩ := step_clientMain h
    rw [hconn.blocked hok.2] at hm
    cases hm
  · obtain ⟨event, rest, c, hhead, -⟩ := step_serverCm h
    simp [hev] at hhead
  · obtain ⟨event, rest, hhead, -, rfl⟩ := step_clientCm h
    obtain ⟨rfl, rfl⟩ := List.cons.inj (hev'.symm.trans hhead)
    refine .sending (hbase.of_mainFields (cmaEventHandler_mainFields _ _ _ _)) (hidle.cm _ _ _)
      (hconn.established hbase) ?_ hcalm hacc ?_ rfl hwire
    · intro hpc
      rw [hconn.pc] at hpc
      cases hpc
    · simp [Told, hev, CmEvent.toPeer]

/-- What the server is told changes nothing for it. -/
theorem told_step {c : ServerConfig} (hcalm : Calm server a content s.server)
    (hs : s.server.step N (.ep (.cm .established childId 0)) = some c) : c = s.server := by
  obtain ⟨-, ep, he, rfl⟩ := ServerConfig.step_ep hs
  simp only [Endpoint.step, cm_established hcalm.server_ne, Option.some.injEq] at he
  subst he
  rfl

theorem sending_step (hbase : ClientBase client s.client)
    (hidle : Idle s.client.ep) (hsend : Sending s.client)
    (hpage : s.client.pc = .testPost →
      Page server (s.client.ep.cb.sendBuf.carry client server) s.server.remoteMem)
    (hcalm : Calm server a content s.server) (hacc : Accepted s.server)
    (hev : Told s.toServer) (hev' : s.toClient = []) (hwire : Still s)
    (hok : Healthy s l) (h : step N s l = some s') : Joint client server s' := by
  rcases idle_step hcalm.idle hidle hwire h with ⟨inp, rfl⟩ | ⟨inp, rfl⟩ | rfl | rfl
  · obtain ⟨cb, pc, call, c, hm, -, -⟩ := step_serverMain h
    rw [hacc.blocked hok.2] at hm
    cases hm
  · obtain ⟨cb, pc, call, ep, hm, he, rfl⟩ := step_clientMain h
    have hbase' := hbase.main hm he
    obtain ⟨hpeer, hself, hnext⟩ :=
      hsend.main server s.server.remoteMem hbase hidle hm he
    rw [hpeer, hself, List.append_nil, List.append_nil]
    rcases hnext with ⟨hsend', hidle', hpage'⟩ | ⟨hpc, rfl, rfl, rfl⟩
    · -- the server does not look at the client's memory yet
      have hroom : a.len server ≤ s.server.rdmaMem.length :=
        hcalm.echo.room.resolve_left (by simp [hacc.pc, ServerConfig.bufferGone])
      exact .sending hbase' hidle' hsend' hpage' (hcalm.restart hacc hroom _)
        ⟨hacc.pc, hacc.state, hacc.armed, hacc.recv⟩ hev hev' hwire
    · obtain ⟨hadv, hcb⟩ := hsend.post hbase hidle hpc hok.1 he
      obtain ⟨hlen, hnul⟩ := hpage hpc
      refine .sent hadv (by rw [hcb]) (by rw [hcb]; exact hbase.sameHost)
        (hcalm.restart hacc (by rw [hlen]; exact hcalm.room) _) hnul
        ⟨hacc.pc, hacc.state, hacc.armed, hacc.recv⟩ hev hev' (.inl hwire.1) hwire.2
  · obtain ⟨event, rest, c, hhead, hs, rfl⟩ := step_serverCm h
    obtain rfl := hev event (by simp [hhead])
    rw [told_step hcalm hs]
    refine .sending hbase hidle hsend hpage hcalm hacc ?_ hev' hwire
    exact fun event' hmem => hev event' (by simp [hhead, show event' ∈ rest from hmem])
  · obtain ⟨event, rest, hhead, -⟩ := step_clientCm h
    simp [hev'] at hhead

theorem sent_step (hadv : Advertising s.client)
    (ha : a = s.client.ep.cb.sendBuf.carry client server)
    (hhost : s.client.ep.cb.host = client) (hcalm : Calm server a content s.server)
    (hnul : ∃ j < a.len server, content j = 0) (hacc : Accepted s.server)
    (hev : Told s.toServer) (hev' : s.toClient = [])
    (hadvert : s.advert = .still ∨ s.advert = .flying s.client.ep.cb.sendBuf sizeofRdmaInfo)
    (hwire : s.goAhead = .still)
    (hok : Healthy s l) (h : step N s l = some s') : Joint client server s' := by
  cases l with
  | serverMain inp =>
      obtain ⟨cb, pc, call, c, hm, -, -⟩ := step_serverMain h
      -- both main threads wait, the server for the advertisement
      rw [hacc.blocked hok.2] at hm
      cases hm
  | clientMain inp =>
      obtain ⟨cb, pc, call, ep, hm, -, -⟩ := step_clientMain h
      rw [hadv.waiting.blocked hok.2] at hm
      cases hm
  | serverCm =>
      obtain ⟨event, rest, c, hhead, hs, rfl⟩ := step_serverCm h
      obtain rfl := hev event (by simp [hhead])
      rw [told_step hcalm hs]
      refine .sent hadv ha hhost hcalm hnul hacc ?_ hev' hadvert hwire
      exact fun event' hmem => hev event' (by simp [hhead, show event' ∈ rest from hmem])
  | clientCm =>
      obtain ⟨event, rest, hhead, -⟩ := step_clientCm h
      simp [hev'] at hhead
  | serverEp l =>
      obtain ⟨hmay, c, hs, -⟩ := step_serverEp h
      rw [hadv.waiting.qpErr] at hmay
      obtain ⟨-, ep, he, -⟩ := ServerConfig.step_ep hs
      rw [hcalm.idle.no_ep hmay] at he
      cases he
  | clientEp l =>
      obtain ⟨hmay, ep, he, -⟩ := step_clientEp h
      rw [hcalm.idle.qpErr] at hmay
      rw [hadv.no_ep (by rcases hadvert with hw | hw <;> simp [hw]) hmay hok] at he
      cases he
  | serverMove =>
      simp [step, ServerConfig.step, ServerConfig.moveByte, hcalm.idle.sq] at h
  | clientMove =>
      obtain ⟨ep, he, rfl⟩ := Option.map_eq_some_iff.mp h
      have hadv' := hadv.sendByte he
      obtain ⟨p, rest, -, -, -, -, rfl⟩ := Endpoint.sendByte_eq_some he
      exact .sent hadv' ha hhost hcalm hnul hacc hev hev' hadvert hwire
  | transmitAdvert =>
      obtain ⟨wire, hw, rfl⟩ := Option.map_eq_some_iff.mp h
      obtain ⟨p, rest, -, hp, -, -, -, rfl⟩ := Endpoint.transmit_eq_some hw
      obtain ⟨q, hq, hlen⟩ := hadv.out
      obtain ⟨rfl, rfl⟩ := List.cons.inj (hp.symm.trans hq)
      exact .sent hadv ha hhost hcalm hnul hacc hev hev' (.inr (by rw [hlen])) hwire
  | transmitGoAhead => simp [step, Endpoint.transmit, hwire, hcalm.idle.sq] at h
  | landAdvert =>
      obtain ⟨msg, len, c, hflying, hs, rfl⟩ := step_landAdvert h
      rcases hadvert with hw | hw
      · simp [hw] at hflying
      · rw [hw, Wire.flying.injEq] at hflying
        obtain ⟨rfl, rfl⟩ := hflying
        have hhost' : s.server.ep.cb.host = server := hcalm.echo.sameHost
        rw [hhost, hhost', ← ha] at hs
        -- the server gets it in its own byte order
        obtain ⟨p, hp, -⟩ := hadv.out
        exact .serving hadv.waiting (hcalm.land hacc hnul hs) hev hev' (.inl ⟨rfl, p, hp⟩) hwire
  | landGoAhead => simp [step, hwire] at h

/-- The wire of a client whose only SEND has landed. -/
theorem Waiting.wire {c : ClientConfig} {ep : Endpoint} {wire : Wire} {l : EpLabel}
    (h : Waiting c)
    (hwire : (wire = .landed ∧ ∃ p, c.ep.sq = [p]) ∨ (wire = .still ∧ c.ep.sq = []))
    (hmay : c.ep.mayMove wire false l = true) (hok : l.healthy)
    (hs : c.ep.step clientHook l = some ep) :
    (c.ep.wireAfter wire l = .landed ∧ ∃ p, ep.sq = [p]) ∨
      (c.ep.wireAfter wire l = .still ∧ ep.sq = []) := by
  cases l with
  | cm event id ret => cases hmay
  | land buf byteLen status => cases hmay
  | cqPollErr => exact hok.elim
  | fail => exact hok.elim
  | breakQp => cases hmay
  | flush =>
      obtain ⟨p, rest, -, hbroken, -⟩ := Endpoint.step_flush hs
      simp [h.qpErr] at hbroken
  | flushRecv =>
      obtain ⟨-, hbroken, -⟩ := Endpoint.step_flushRecv hs
      simp [h.qpErr] at hbroken
  | cqEnter =>
      obtain ⟨-, -, rfl⟩ := Endpoint.step_cqEnter hs
      exact hwire
  | cqPoll ret =>
      obtain ⟨-, ⟨-, rfl⟩ | ⟨wc, rest, -, rfl⟩⟩ := Endpoint.step_poll hs
      · exact hwire
      · exact hwire
  | complete =>
      obtain ⟨q, rest, hq, -, -, rfl⟩ := Endpoint.step_complete hs
      have hop := h.sq q (by simp [hq])
      rcases hwire with ⟨rfl, p, hp⟩ | ⟨rfl, hp⟩
      · obtain ⟨rfl, rfl⟩ := List.cons.inj (hq.symm.trans hp)
        exact .inr ⟨by simp [Endpoint.wireAfter, Endpoint.oldestSend, hq, hop], rfl⟩
      · simp [hq] at hp

theorem serving_step (hwait : Waiting s.client) (hserved : Served server a content s.server)
    (hev : Told s.toServer) (hev' : s.toClient = [])
    (hadvert : (s.advert = .landed ∧ ∃ p, s.client.ep.sq = [p]) ∨
      (s.advert = .still ∧ s.client.ep.sq = []))
    (hwire : s.goAhead = .still)
    (hok : Healthy s l) (h : step N s l = some s') : Joint client server s' := by
  cases l with
  | serverMain inp =>
      obtain ⟨cb, pc, call, c, hm, hs, rfl⟩ := step_serverMain h
      obtain ⟨hpeer, hserved' | hdis⟩ := hserved.main hok.1 hok.2 hm hs
      · exact .serving hwait hserved' hev (by rw [hpeer, hev']; rfl) hadvert hwire
      -- the server has left its loop and posted the go-ahead
      · refine .late ⟨by simp [hdis, LateServer], by simp [hwait.pc, LateClient], hwait.sq, ?_, ?_,
          fun _ => .inl hdis⟩
        · intro wc hwc
          simp [(hwait.queue wc hwc).2]
        · simp [hpeer, hev']
  | clientMain inp =>
      obtain ⟨cb, pc, call, ep, hm, -, -⟩ := step_clientMain h
      rw [hwait.blocked hok.2] at hm
      cases hm
  | serverCm =>
      obtain ⟨event, rest, c, hhead, hs, rfl⟩ := step_serverCm h
      obtain rfl := hev event (by simp [hhead])
      refine .serving hwait (hserved.established hs) ?_ hev' hadvert hwire
      exact fun event' hmem => hev event' (by simp [hhead, show event' ∈ rest from hmem])
  | clientCm =>
      obtain ⟨event, rest, hhead, -⟩ := step_clientCm h
      simp [hev'] at hhead
  | serverEp l =>
      obtain ⟨hmay, c, hs, rfl⟩ := step_serverEp h
      rw [hwait.qpErr, hwire] at hmay
      refine .serving hwait (hserved.ep hmay hok hs) hev hev' hadvert ?_
      rw [hwire]
      cases l <;> simp [Endpoint.wireAfter]
  | clientEp l =>
      obtain ⟨hmay, ep, he, rfl⟩ := step_clientEp h
      rw [hserved.qpErr] at hmay
      exact .serving (hwait.endpoint hmay hok he) hserved hev hev'
        (hwait.wire hadvert hmay hok he) hwire
  | serverMove =>
      obtain ⟨c, hs, rfl⟩ := Option.map_eq_some_iff.mp h
      exact .serving hwait (hserved.move hs) hev hev' hadvert hwire
  | clientMove =>
      obtain ⟨ep, he, rfl⟩ := Option.map_eq_some_iff.mp h
      have hwait' := hwait.sendByte he
      obtain ⟨p, rest, hp, -, -, -, rfl⟩ := Endpoint.sendByte_eq_some he
      refine .serving hwait' hserved hev hev' ?_ hwire
      rcases hadvert with ⟨hw, q, hq⟩ | ⟨hw, hq⟩
      · obtain ⟨rfl, rfl⟩ := List.cons.inj (hp.symm.trans hq)
        exact .inl ⟨hw, _, rfl⟩
      · simp [hp] at hq
  | transmitAdvert =>
      rcases hadvert with ⟨hw, -⟩ | ⟨hw, hq⟩
      · simp [step, Endpoint.transmit, hw] at h
      · simp [step, Endpoint.transmit, hw, hq] at h
  | transmitGoAhead =>
      obtain ⟨wire, hw, -⟩ := Option.map_eq_some_iff.mp h
      obtain ⟨p, rest, -, hp, -, hop, -⟩ := Endpoint.transmit_eq_some hw
      -- in the loop the server posts no SEND
      rcases hserved.stage with hl | hg
      · simp [hl.sq] at hp
      · exact absurd hop (hg.sq p (by simp [hp]))
  | landAdvert =>
      rcases hadvert with ⟨hw, -⟩ | ⟨hw, -⟩ <;> simp [step, hw] at h
  | landGoAhead => simp [step, hwire] at h

/-! ### After the go-ahead -/

theorem Late.sendsOnly (h : Late s) : SendsOnly s.client.ep := ⟨h.sends, h.reads⟩

/-- The server on its way out disconnects once. -/
theorem serverMain_late {len : Option Nat} {inp : MainIn} {cb cb' : IbContext}
    {pc pc' : ServerPc} {call : Call} (hm : serverMain N len inp cb pc = some (cb', pc', call))
    (hpc : LateServer pc = true) :
    LateServer pc' = true ∧ (pc = .disconnect → call.toPeer = [.disconnected]) ∧
      ∀ event ∈ call.toPeer, event = .disconnected := by
  cases serverMain_move hm <;> simp_all [LateServer, Call.toPeer]

/-- So does the client; its wait is behind it. -/
theorem clientMain_late {inp : MainIn} {cb cb' : IbContext} {pc pc' : ClientPc} {call : Call}
    (hm : clientMain inp cb pc = some (cb', pc', call)) (hpc : LateClient pc = true) :
    LateClient pc' = true ∧ pc' ≠ .testWait ∧ call.toSelf = [] ∧
      (∀ wr sge, call ≠ .postSend wr sge) := by
  cases clientMain_move hm <;> simp_all [LateClient, Call.toSelf]

/-- The program counter of the server stays but for its main thread. -/
theorem server_pc {c c' : ServerConfig} {l : ServerLabel} (h : c.step N l = some c')
    (hmain : ∀ inp, l ≠ .main inp) : c'.pc = c.pc := by
  cases l with
  | main inp => exact absurd rfl (hmain inp)
  | move =>
      obtain ⟨p, rest, -, -, -, -, hpc, -⟩ := ServerConfig.step_move h
      exact hpc
  | ep l =>
      obtain ⟨-, ep, -, rfl⟩ := ServerConfig.step_ep h
      rfl
  | reuse mem =>
      obtain ⟨-, rfl⟩ := ServerConfig.step_reuse h
      rfl

/-- Both ends stay where they are, and the client's state stays as far. -/
theorem Late.stay (h : Late s) (hserver : s'.server.pc = s.server.pc)
    (hclient : s'.client.pc = s.client.pc) (honly : SendsOnly s'.client.ep)
    (hev : s'.toClient = s.toClient)
    (hst : rdmaWriteAdv ≤ s.client.ep.cb.state → rdmaWriteAdv ≤ s'.client.ep.cb.state) :
    Late s' := by
  constructor
  · rw [hserver]
    exact h.server
  · rw [hclient]
    exact h.client
  · exact honly.sends
  · exact honly.reads
  · rw [hev]
    exact h.events
  · intro hpc
    rw [hclient] at hpc
    rw [hserver, hev]
    exact (h.wait hpc).imp_right fun hw => hw.imp_right hst

theorem Late.step (h : Late s) (hs : step N s l = some s') : Late s' := by
  have honly := h.sendsOnly
  cases l with
  | serverMain inp =>
      obtain ⟨cb, pc, call, c, hm, hstep, rfl⟩ := step_serverMain hs
      obtain ⟨cb', call', hm', -⟩ := ServerConfig.step_main_call hstep
      rw [hm, Option.some.injEq, Prod.mk.injEq, Prod.mk.injEq] at hm'
      obtain ⟨-, rfl, -⟩ := hm'
      obtain ⟨hlate, htells, hpeer⟩ := serverMain_late hm h.server
      refine ⟨hlate, h.client, honly.sends, honly.reads, ?_, ?_⟩
      · intro event hmem
        rcases List.mem_append.mp hmem with hmem | hmem
        · exact h.events event hmem
        · exact hpeer event hmem
      · intro hpc
        -- the client's last wait is over in any case: the server disconnects, or has
        rcases h.wait hpc with hdis | hev | hst
        · exact .inr (.inl (by simp [htells hdis]))
        · exact .inr (.inl (List.mem_append.mpr (.inl hev)))
        · exact .inr (.inr hst)
  | clientMain inp =>
      obtain ⟨cb, pc, call, ep, hm, he, rfl⟩ := step_clientMain hs
      obtain ⟨hlate, hne, hself, hpost⟩ := clientMain_late hm h.client
      obtain ⟨hsends, hreads⟩ := honly.call hpost he
      exact ⟨h.server, hlate, hsends, hreads, by rw [hself, List.append_nil]; exact h.events,
        fun hpc => absurd hpc hne⟩
  | serverCm =>
      obtain ⟨event, rest, c, -, hstep, rfl⟩ := step_serverCm hs
      exact h.stay (server_pc hstep nofun) rfl honly rfl id
  | clientCm =>
      -- the only event that can come in is `DISCONNECTED`
      obtain ⟨event, rest, hhead, -, rfl⟩ := step_clientCm hs
      obtain rfl := h.events event (by simp [hhead])
      refine ⟨h.server, h.client, honly.sends, honly.reads, ?_, fun _ => .inr (.inr ?_)⟩
      · intro event hmem
        have hmem' : event ∈ rest ++ [] := hmem
        rw [List.append_nil] at hmem'
        exact h.events event (by simp [hhead, hmem'])
      · exact (by decide : rdmaWriteAdv ≤ error)
  | serverEp l =>
      obtain ⟨-, c, hstep, rfl⟩ := step_serverEp hs
      exact h.stay (server_pc hstep nofun) rfl honly rfl id
  | clientEp l =>
      obtain ⟨hmay, ep, he, rfl⟩ := step_clientEp hs
      have hcm : ∀ event id ret, l ≠ .cm event id ret := by
        rintro event id ret rfl
        cases hmay
      obtain ⟨honly', hst⟩ := honly.step hcm he
      exact h.stay rfl rfl honly' rfl (hst rdmaWriteAdv (Nat.le_refl _))
  | serverMove =>
      obtain ⟨c, hstep, rfl⟩ := Option.map_eq_some_iff.mp hs
      exact h.stay (server_pc hstep nofun) rfl honly rfl id
  | clientMove =>
      obtain ⟨ep, he, rfl⟩ := Option.map_eq_some_iff.mp hs
      obtain ⟨honly', hcb⟩ := honly.sendByte he
      exact h.stay rfl rfl honly' rfl fun hst => by rwa [hcb]
  | transmitAdvert =>
      obtain ⟨wire, -, rfl⟩ := Option.map_eq_some_iff.mp hs
      exact h.stay rfl rfl honly rfl id
  | transmitGoAhead =>
      obtain ⟨wire, -, rfl⟩ := Option.map_eq_some_iff.mp hs
      exact h.stay rfl rfl honly rfl id
  | landAdvert =>
      obtain ⟨msg, len, c, -, hstep, rfl⟩ := step_landAdvert hs
      exact h.stay (server_pc hstep nofun) rfl honly rfl id
  | landGoAhead =>
      obtain ⟨msg, len, ep, -, he, rfl⟩ := step_landGoAhead hs
      obtain ⟨honly', hst⟩ := honly.step (by simp) he
      exact h.stay rfl rfl honly' rfl (hst rdmaWriteAdv (Nat.le_refl _))

/-! ## Runs -/

theorem Joint.step (h : Joint client server s) (hok : Healthy s l)
    (hs : System.step N s l = some s') : Joint client server s' := by
  cases h with
  | opening hbase hidle hbind hcalm hopen hev hwire =>
      exact opening_step hbase hidle hbind hcalm hopen hev hwire hok hs
  | requested hbase hidle hconn hcalm hopen hev hev' hwire =>
      exact requested_step hbase hidle hconn hcalm hopen hev hev' hwire hok hs
  | setting hbase hidle hconn hcalm hset hev hev' hwire =>
      exact setting_step hbase hidle hconn hcalm hset hev hev' hwire hok hs
  | accepted hbase hidle hconn hcalm hacc hev hev' hwire =>
      exact accepted_step hbase hidle hconn hcalm hacc hev hev' hwire hok hs
  | sending hbase hidle hsend hpage hcalm hacc hev hev' hwire =>
      exact sending_step hbase hidle hsend hpage hcalm hacc hev hev' hwire hok hs
  | sent hadv ha hhost hcalm hnul hacc hev hev' hadvert hwire =>
      exact sent_step hadv ha hhost hcalm hnul hacc hev hev' hadvert hwire hok hs
  | serving hwait hserved hev hev' hadvert hwire =>
      exact serving_step hwait hserved hev hev' hadvert hwire hok hs
  | late h => exact .late (h.step hs)

theorem init_joint {mem : List Byte} {remote : BitVec 64 → Byte} (hmem : bufSize ≤ mem.length) :
    Joint client server (init client server mem remote) := by
  have hlen : (⟨0, 0, 0⟩ : RdmaInfo).len server ≤ mem.length := by
    cases server <;> exact Nat.zero_le _
  exact .opening ⟨rfl, rfl, rfl, rfl, nofun⟩ ⟨rfl, rfl, rfl, rfl, rfl⟩ (.start rfl rfl)
    ⟨ServerConfig.init_echoInv (a := ⟨0, 0, 0⟩) hlen, ⟨rfl, rfl, rfl, rfl, rfl⟩, fun _ => rfl,
      hmem⟩
    ⟨.inl rfl, rfl, by simp [init, ServerConfig.init], rfl⟩ rfl ⟨rfl, rfl⟩

theorem joint_of_reach {mem : List Byte} {remote : BitVec 64 → Byte}
    (hmem : bufSize ≤ mem.length)
    (h : Runs.Reach (System.step N) Healthy (init client server mem remote) s) :
    Joint client server s :=
  h.invariant (init_joint hmem) fun _ _ _ ha hok hs => ha.step hok hs

end Steps

end System

end MegaVM
