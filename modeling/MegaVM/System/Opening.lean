import MegaVM.Server.Echo
import MegaVM.System.Machine

/-!
# Up to the advertisement

Before the client sends, neither queue pair has anything to do, and only
the main threads and the CM events move. The client resolves the address
(`Binding`), connects, and is told that the connection is there
(`Sending`); the server listens (`Opening`), sets up the session of the
request (`Setting`) and waits for the advertisement (`Accepted`).
-/

namespace MegaVM

open TestState

/-- An end whose queues are empty and whose CQ handler does not run. -/
structure Idle (e : Endpoint) : Prop where
  sq : e.sq = []
  queue : e.cq.queue = []
  pending : e.cq.pending = 0
  draining : e.draining = false
  qpErr : e.qpErr = false

namespace Idle

variable {e e' : Endpoint}

theorem no_ep {hook : RecvHook} {l : EpLabel} {wire : Wire} (h : Idle e)
    (hmay : e.mayMove wire false l = true) : e.step hook l = none := by
  obtain ⟨hsq, hq, hp, hd, herr⟩ := h
  cases l with
  | cm event id ret => cases hmay
  | land buf byteLen status => cases hmay
  | breakQp => cases hmay
  | cqEnter => simp [Endpoint.step, Endpoint.cqEnter, hp]
  | cqPoll ret => simp [Endpoint.step, Endpoint.cqPoll, hd]
  | cqPollErr => simp [Endpoint.step, Endpoint.cqPollErr, hd]
  | complete => simp [Endpoint.step, hsq]
  | fail => simp [Endpoint.step, hsq]
  | flush => simp [Endpoint.step, hsq]
  | flushRecv => simp [Endpoint.step, herr]

theorem cm (h : Idle e) (event : CmEvent) (id : CmId) (ret : Int) : Idle (e.cm event id ret) :=
  ⟨h.sq, h.queue, h.pending, h.draining, h.qpErr⟩

/-- The calls of both set-ups. -/
theorem call {inp : MainIn} {cb : IbContext} {c : Call} (h : Idle e)
    (hc : Endpoint.call inp { e with cb := cb } c = some e')
    (hpost : ∀ wr sge, c ≠ .postSend wr sge) (hdis : ∀ id, c ≠ .disconnect id) : Idle e' := by
  obtain ⟨hsq, hq, hp, hd, herr⟩ := h
  cases c with
  | postSend wr sge => exact absurd rfl (hpost wr sge)
  | disconnect id => exact absurd rfl (hdis id)
  | destroyQp =>
      simp only [Endpoint.call, Endpoint.destroyQp, hd, Bool.false_eq_true, if_false,
        Option.some.injEq] at hc
      subst hc
      exact ⟨rfl, rfl, rfl, rfl, herr⟩
  | _ =>
      simp only [Endpoint.call, Option.some.injEq] at hc
      subst hc
      exact ⟨hsq, hq, hp, hd, herr⟩

end Idle

namespace System

/-! ## The client -/

/-- The points between the set-up of the client's buffers and its
disconnect. -/
def SetUp : ClientPc → Bool
  | .postRecv | .connect | .connectWait | .connectTest | .testSet | .testFill | .testPost
  | .testWait => true
  | _ => false

/-- The fields of the client that its main thread sets once. -/
structure ClientBase (host : Endian) (c : ClientConfig) : Prop where
  sameHost : c.ep.cb.mainFields.host = host
  server : c.ep.cb.mainFields.server = 0
  size : c.ep.cb.mainFields.size = bufSize
  sqWr : c.ep.cb.mainFields.sqWr.opcode = .send
  sendSgl : SetUp c.pc = true → c.ep.cb.mainFields.sendSgl.length = sizeofRdmaInfo

/-- Before the request: the resolution of address and route, and the
set-up. -/
inductive Binding (c : ClientConfig) : List CmEvent → Prop
  | start (hpc : c.pc = .resolveAddr) (hst : c.ep.cb.state = idle) : Binding c []
  | address (hpc : c.pc = .bindWait) (hst : c.ep.cb.state = idle) : Binding c [.addrResolved]
  | route (hpc : c.pc = .bindWait) (hst : c.ep.cb.state = addrResolved) :
      Binding c [.routeResolved]
  | bound (hpc : c.pc = .bindWait ∨ c.pc = .bindTest ∨ c.pc = .setupQp ∨ c.pc = .setupBuffers ∨
      c.pc = .postRecv ∨ c.pc = .connect) (hst : c.ep.cb.state = routeResolved) : Binding c []

/-- The request is under way. -/
structure Connecting (c : ClientConfig) : Prop where
  pc : c.pc = .connectWait
  state : c.ep.cb.state = routeResolved

/-- The connection is there, the advertisement not yet posted. -/
inductive Sending (c : ClientConfig) : Prop
  | before (hpc : c.pc = .connectWait ∨ c.pc = .connectTest ∨ c.pc = .testSet)
      (hst : c.ep.cb.state = connected)
  | prepared (hpc : c.pc = .testFill ∨ c.pc = .testPost) (hst : c.ep.cb.state = rdmaReadAdv)

/-- What the client is about to advertise: its whole buffer, which has a
NUL. -/
structure Page (host : Endian) (a : RdmaInfo) (mem : BitVec 64 → Byte) : Prop where
  len : a.len host = bufSize
  nul : ∃ j < a.len host, mem (a.addr host + BitVec.ofNat 64 j) = 0

section Client
variable {host : Endian} {c : ClientConfig} {inp : MainIn} {cb : IbContext} {pc : ClientPc}
  {call : Call} {ep : Endpoint}

/-- The set-up of the buffers is the only way in. -/
theorem clientMain_setUp {cb cb' : IbContext} {pc pc' : ClientPc}
    (hm : clientMain inp cb pc = some (cb', pc', call)) (hset : SetUp pc' = true) :
    SetUp pc = true ∨ cb'.sendSgl.length = sizeofRdmaInfo := by
  cases clientMain_move hm <;> first | exact .inl rfl | exact .inr rfl | cases hset

/-- What every statement of the client keeps. -/
theorem clientMain_base {cb cb' : IbContext} {pc pc' : ClientPc}
    (hm : clientMain inp cb pc = some (cb', pc', call)) :
    cb'.host = cb.host ∧ cb'.server = cb.server ∧ cb'.size = cb.size ∧
      (cb.sqWr.opcode = .send → cb'.sqWr.opcode = .send) ∧
      (cb.sendSgl.length = sizeofRdmaInfo → cb'.sendSgl.length = sizeofRdmaInfo) := by
  cases clientMain_move hm <;>
    first | exact ⟨rfl, rfl, rfl, id, id⟩ | exact ⟨rfl, rfl, rfl, fun _ => rfl, fun _ => rfl⟩

theorem ClientBase.main (h : ClientBase host c)
    (hm : clientMain inp c.ep.cb c.pc = some (cb, pc, call))
    (he : Endpoint.call inp { c.ep with cb := cb } call = some ep) :
    ClientBase host ⟨ep, pc⟩ := by
  obtain rfl : ep.cb = cb := Endpoint.call_cb he
  obtain ⟨hhost, hserver, hsize, hsq, hsgl⟩ := clientMain_base hm
  refine ⟨hhost.trans h.sameHost, hserver.trans h.server, hsize.trans h.size, hsq h.sqWr, ?_⟩
  intro hset
  rcases clientMain_setUp hm hset with hpc | hlen
  · exact hsgl (h.sendSgl hpc)
  · exact hlen

theorem ClientBase.of_mainFields (h : ClientBase host c)
    (hf : ep.cb.mainFields = c.ep.cb.mainFields) : ClientBase host ⟨ep, c.pc⟩ :=
  ⟨hf ▸ h.sameHost, hf ▸ h.server, hf ▸ h.size, hf ▸ h.sqWr, hf ▸ h.sendSgl⟩

/-- The set-up of the client, up to the request. -/
theorem clientMain_bound {cb₀ : IbContext} {pc₀ : ClientPc}
    (hm : clientMain inp cb₀ pc₀ = some (cb, pc, call)) (hret : inp.ret = 0)
    (hst : cb₀.state = routeResolved)
    (hpc : pc₀ = .bindWait ∨ pc₀ = .bindTest ∨ pc₀ = .setupQp ∨ pc₀ = .setupBuffers ∨
      pc₀ = .postRecv ∨ pc₀ = .connect) :
    (call = .none ∨ (∃ id, call = .createQp id) ∨ call = .postRecv ∨ call = .connect) ∧
      (((pc = .bindTest ∨ pc = .setupQp ∨ pc = .setupBuffers ∨ pc = .postRecv ∨
        pc = .connect) ∧ call ≠ .connect) ∨ (pc = .connectWait ∧ call = .connect)) := by
  rcases hpc with rfl | rfl | rfl | rfl | rfl | rfl <;> grind [clientMain, waitEvent_eq_some]

theorem Binding.main {toClient : List CmEvent} (h : Binding c toClient) (hi : Idle c.ep)
    (hret : inp.ret = 0) (hsig : inp.signal = false)
    (hm : clientMain inp c.ep.cb c.pc = some (cb, pc, call))
    (he : Endpoint.call inp { c.ep with cb := cb } call = some ep) :
    Idle ep ∧ (∀ base mem, call.store base mem = mem) ∧
      ((Binding ⟨ep, pc⟩ (toClient ++ call.toSelf) ∧ call.toPeer = []) ∨
        (Connecting ⟨ep, pc⟩ ∧ toClient ++ call.toSelf = [] ∧
          call.toPeer = [.connectRequest])) := by
  have hcb : ep.cb = cb := Endpoint.call_cb he
  have hstate := clientMain_state hm
  cases h with
  | start hpc hst =>
      rw [if_neg (by simp [hpc]), hst, ← hcb] at hstate
      simp only [hpc, clientMain, hret, ne_eq, not_true_eq_false, if_false, Option.some.injEq,
        Prod.mk.injEq] at hm
      obtain ⟨-, rfl, rfl⟩ := hm
      exact ⟨hi.call he (by simp) (by simp), fun _ _ => rfl, .inl ⟨.address rfl hstate, rfl⟩⟩
  | address hpc hst =>
      -- the wait is not over
      rw [hpc, clientMain, waitEvent_eq_some, hst, hsig] at hm
      simp at hm
  | route hpc hst =>
      rw [hpc, clientMain, waitEvent_eq_some, hst, hsig] at hm
      simp at hm
  | bound hpc hst =>
      rw [if_neg (by rintro heq; simp [heq] at hpc), hst, ← hcb] at hstate
      obtain ⟨hcall, hnext⟩ := clientMain_bound hm hret hst hpc
      have hidle : Idle ep := by
        refine hi.call he ?_ ?_
        · rintro wr sge rfl
          simp at hcall
        · rintro id rfl
          simp at hcall
      have hself : call.toSelf = [] ∧ ∀ base mem, call.store base mem = mem := by
        rcases hcall with rfl | ⟨id, rfl⟩ | rfl | rfl <;> exact ⟨rfl, fun _ _ => rfl⟩
      refine ⟨hidle, hself.2, ?_⟩
      rw [hself.1]
      rcases hnext with ⟨hpc', hne⟩ | ⟨hpc', rfl⟩
      · have hpeer : call.toPeer = [] := by
          rcases hcall with rfl | ⟨id, rfl⟩ | rfl | rfl
          · rfl
          · rfl
          · rfl
          · exact absurd rfl hne
        exact .inl ⟨.bound (.inr hpc') hstate, hpeer⟩
      · exact .inr ⟨⟨hpc', hstate⟩, rfl, rfl⟩

/-- A CM event of the resolution. -/
theorem Binding.cm {event : CmEvent} {rest : List CmEvent} (h : Binding c (event :: rest)) :
    Binding ⟨c.ep.cm event createdId 0, c.pc⟩ (rest ++ event.toSelf) ∧ event.toPeer = [] := by
  cases h with
  | address hpc hst => exact ⟨.route hpc rfl, rfl⟩
  | route hpc hst => exact ⟨.bound (.inl hpc) rfl, rfl⟩

/-- The client waits for the connection until it is told of it. -/
theorem Connecting.blocked (h : Connecting c) (hsig : inp.signal = false) :
    clientMain inp c.ep.cb c.pc = none := by
  rw [h.pc, clientMain, waitEvent, if_neg]
  simp [h.state, hsig]

theorem Connecting.established (h : Connecting c) (hb : ClientBase host c) :
    Sending ⟨c.ep.cm .established createdId 0, c.pc⟩ := by
  have hserver : c.ep.cb.server = 0 := hb.server
  exact .before (.inl h.pc) (by simp [Endpoint.cm, cmaEventHandler, hserver])

/-! ### The page -/

theorem carry_addr (src dst : Endian) (x : BitVec 64) (r n : BitVec 32) :
    (RdmaInfo.carry src dst ⟨htonll src x, r, htonl src n⟩).addr dst = x := by
  cases src <;> cases dst <;>
    simp [RdmaInfo.carry, RdmaInfo.addr, htonll, ntohll, bswap64_bswap64]

theorem carry_len (src dst : Endian) (x : BitVec 64) (r n : BitVec 32) :
    (RdmaInfo.carry src dst ⟨htonll src x, r, htonl src n⟩).len dst = n.toNat := by
  cases src <;> cases dst <;>
    simp [RdmaInfo.carry, RdmaInfo.len, htonl, ntohl, bswap32_bswap32]

/-- The last store to `start_buf` is the NUL in its last byte. -/
theorem store_startBuf (size : Nat) (base : BitVec 64) (mem : BitVec 64 → Byte) :
    (Call.fill (startBufWrites size)).store base mem (base + BitVec.ofNat 64 (size - 1)) = 0 := by
  rw [Call.store, startBufWrites, List.foldl_append, List.foldl_cons, List.foldl_nil,
    Function.update_self]

/-- `megaVM_format_send` advertises the buffer just written. -/
theorem formatSend_page {serverHost : Endian} {cb : IbContext} (hsize : cb.size = bufSize)
    (mem : BitVec 64 → Byte) :
    Page serverHost ((formatSend cb cb.startDmaAddr).sendBuf.carry cb.host serverHost)
      ((Call.fill (startBufWrites cb.size)).store cb.startDmaAddr mem) := by
  have hlen := carry_len cb.host serverHost cb.startDmaAddr (htonl cb.host cb.dmaMr.rkey)
    (BitVec.ofNat 32 cb.size)
  have haddr := carry_addr cb.host serverHost cb.startDmaAddr (htonl cb.host cb.dmaMr.rkey)
    (BitVec.ofNat 32 cb.size)
  have hbuf : (BitVec.ofNat 32 cb.size).toNat = bufSize := by
    rw [hsize]
    rfl
  refine ⟨hlen.trans hbuf, bufSize - 1, ?_, ?_⟩
  · rw [formatSend, hlen, hbuf]
    decide
  · rw [formatSend, haddr, ← hsize]
    exact store_startBuf cb.size cb.startDmaAddr mem

/-- The client goes on until it has posted the advertisement of its page. -/
theorem Sending.main (serverHost : Endian) (mem : BitVec 64 → Byte) (h : Sending c)
    (hb : ClientBase host c) (hi : Idle c.ep)
    (hm : clientMain inp c.ep.cb c.pc = some (cb, pc, call))
    (he : Endpoint.call inp { c.ep with cb := cb } call = some ep) :
    call.toPeer = [] ∧ call.toSelf = [] ∧
      ((Sending ⟨ep, pc⟩ ∧ Idle ep ∧ (pc = .testPost →
          Page serverHost (ep.cb.sendBuf.carry host serverHost)
            (call.store cb.startDmaAddr mem))) ∨
        (c.pc = .testPost ∧ pc = .testWait ∧ cb = c.ep.cb ∧
          call = .postSend cb.sqWr cb.sendSgl)) := by
  have hcb : ep.cb = cb := Endpoint.call_cb he
  have hstate := clientMain_state hm
  rw [← hcb] at hstate
  have hsize : c.ep.cb.size = bufSize := hb.size
  have hhost : c.ep.cb.host = host := hb.sameHost
  cases h with
  | before hpc hst =>
      rcases hpc with hpc | hpc | hpc <;> rw [hpc] at hm hstate
      · rw [clientMain, waitEvent_eq_some] at hm
        obtain ⟨-, hm⟩ := hm
        obtain ⟨rfl, rfl, rfl⟩ := hm
        exact ⟨rfl, rfl, .inl ⟨.before (.inr (.inl rfl)) (hstate.trans hst),
          hi.call he (by simp) (by simp), (by simp)⟩⟩
      · rw [clientMain, if_neg (by simp [hst]), Option.some.injEq] at hm
        obtain ⟨rfl, rfl, rfl⟩ := hm
        exact ⟨rfl, rfl, .inl ⟨.before (.inr (.inr rfl)) (hstate.trans hst),
          hi.call he (by simp) (by simp), (by simp)⟩⟩
      · rw [clientMain, Option.some.injEq] at hm
        obtain ⟨rfl, rfl, rfl⟩ := hm
        exact ⟨rfl, rfl, .inl ⟨.prepared (.inl rfl) hstate,
          hi.call he (by simp) (by simp), (by simp)⟩⟩
  | prepared hpc hst =>
      rcases hpc with hpc | hpc <;> rw [hpc] at hm hstate
      · rw [clientMain, Option.some.injEq] at hm
        obtain ⟨rfl, rfl, rfl⟩ := hm
        refine ⟨rfl, rfl, .inl ⟨.prepared (.inr rfl) (hstate.trans hst),
          hi.call he (by simp) (by simp), fun _ => ?_⟩⟩
        rw [hcb, ← hhost]
        exact formatSend_page hsize mem
      · rw [clientMain, Option.some.injEq] at hm
        obtain ⟨rfl, rfl, rfl⟩ := hm
        exact ⟨rfl, rfl, .inr ⟨hpc, rfl, rfl, rfl⟩⟩

end Client

/-! ## The server -/

open ServerConfig

/-- A server whose queue pair has done nothing yet. -/
structure Calm (host : Endian) (a : RdmaInfo) (content : Nat → Byte) (c : ServerConfig) :
    Prop where
  echo : EchoInv host a content c
  idle : Idle c.ep
  unseen : ∀ p, c.ep.seen p = false
  room : bufSize ≤ c.rdmaMem.length

/-- Up to the request. -/
structure Opening (c : ServerConfig) : Prop where
  pc : c.pc = .bindAddr ∨ c.pc = .listen ∨ c.pc = .bindWait
  state : c.ep.cb.state = TestState.idle
  listening : c.listening = true ↔ c.pc = .bindWait
  requests : c.ep.requests = []

/-- From the request to `rdma_accept`. -/
structure Setting (c : ServerConfig) : Prop where
  pc : c.pc = .bindWait ∨ c.pc = .bindTest ∨ c.pc = .setupQp ∨ c.pc = .setupBuffers ∨
    c.pc = .postRecv ∨ c.pc = .accept
  state : c.ep.cb.state = connectRequest
  armed : c.pc = .setupBuffers ∨ c.pc = .postRecv ∨ c.pc = .accept → c.ep.cq.armed = true
  recv : c.pc = .accept → c.ep.rq ≠ 0

/-- Waiting for the advertisement. -/
structure Accepted (c : ServerConfig) : Prop where
  pc : c.pc = .acceptWait
  state : c.ep.cb.state = connectRequest
  armed : c.ep.cq.armed = true
  recv : c.ep.rq ≠ 0

section Server
variable {N : Nat} {host : Endian} {a : RdmaInfo} {content : Nat → Byte} {c c' : ServerConfig}
  {inp : MainIn} {len : Option Nat} {cb : IbContext} {pc : ServerPc} {call : Call}

theorem Calm.main (h : Calm host a content c) (hloop : LoopPc c.pc = false)
    (hret : inp.ret = 0) (hsig : inp.signal = false)
    (hm : serverMain N (strlen c.rdmaMem) inp c.ep.cb c.pc = some (cb, pc, call))
    (hcall : (∀ wr sge, call ≠ .postSend wr sge) ∧ (∀ id, call ≠ .disconnect id) ∧
      call ≠ .destroyQp)
    (hs : c.step N (.main inp) = some c') : Calm host a content c' := by
  obtain ⟨cb', call', hm', hep, hmem, -⟩ := step_main_call hs
  rw [hm, Option.some.injEq, Prod.mk.injEq, Prod.mk.injEq] at hm'
  obtain ⟨rfl, -, rfl⟩ := hm'
  obtain ⟨hpost, hdis, hqp⟩ := hcall
  exact ⟨h.echo.step (l := .main inp) (fun hl => by simp [hloop] at hl) ⟨hret, hsig⟩ hs,
    h.idle.call hep hpost hdis, fun p => (Endpoint.seen_call hep hqp).trans (h.unseen p),
    by rw [hmem]; exact h.room⟩

theorem Opening.main (h : Opening c) (hret : inp.ret = 0) (hsig : inp.signal = false)
    (hm : serverMain N (strlen c.rdmaMem) inp c.ep.cb c.pc = some (cb, pc, call))
    (hs : c.step N (.main inp) = some c') :
    Opening c' ∧ LoopPc c.pc = false ∧ (call = .none ∨ call = .listen) := by
  obtain ⟨hpc, hst, hlisten, hreq⟩ := h
  obtain ⟨cb', pc', call', hm', happly⟩ := step_main hs
  rw [hm, Option.some.injEq, Prod.mk.injEq, Prod.mk.injEq] at hm'
  obtain ⟨rfl, rfl, rfl⟩ := hm'
  rcases hpc with hpc | hpc | hpc <;> rw [hpc] at hm hlisten
  · simp only [serverMain, hret, ne_eq, not_true_eq_false, if_false, Option.some.injEq,
      Prod.mk.injEq] at hm
    obtain ⟨rfl, rfl, rfl⟩ := hm
    simp only [applyCall, Endpoint.call, Option.map_some, Option.some.injEq] at happly
    subst happly
    exact ⟨⟨.inr (.inl rfl), hst, by simpa using hlisten, hreq⟩, by rw [hpc]; rfl, .inl rfl⟩
  · simp only [serverMain, hret, ne_eq, not_true_eq_false, if_false, Option.some.injEq,
      Prod.mk.injEq] at hm
    obtain ⟨rfl, rfl, rfl⟩ := hm
    simp only [applyCall, Endpoint.call, Option.map_some, Option.some.injEq] at happly
    subst happly
    exact ⟨⟨.inr (.inr rfl), hst, by simp, hreq⟩, by rw [hpc]; rfl, .inr rfl⟩
  · -- no request has come
    rw [serverMain, waitEvent_eq_some, hst, hsig] at hm
    simp at hm

theorem Setting.main (h : Setting c) (hret : inp.ret = 0)
    (hm : serverMain N (strlen c.rdmaMem) inp c.ep.cb c.pc = some (cb, pc, call))
    (hs : c.step N (.main inp) = some c') :
    LoopPc c.pc = false ∧
      ((Setting c' ∧ (call = .none ∨ call = .postRecv ∨ ∃ id, call = .createQp id)) ∨
        (Accepted c' ∧ ∃ id, call = .accept id)) := by
  obtain ⟨hpc, hst, harmed, hrecv⟩ := h
  obtain ⟨cb', pc', call', hm', happly⟩ := step_main hs
  rw [hm, Option.some.injEq, Prod.mk.injEq, Prod.mk.injEq] at hm'
  obtain ⟨rfl, rfl, rfl⟩ := hm'
  rcases hpc with hpc | hpc | hpc | hpc | hpc | hpc <;> rw [hpc] at hm harmed hrecv <;>
    refine ⟨by rw [hpc]; rfl, ?_⟩
  · rw [serverMain, waitEvent_eq_some] at hm
    obtain ⟨-, hm⟩ := hm
    obtain ⟨rfl, rfl, rfl⟩ := hm
    simp only [applyCall, Endpoint.call, Option.map_some, Option.some.injEq] at happly
    subst happly
    exact .inl ⟨⟨.inr (.inl rfl), hst, by simp, by simp⟩, .inl rfl⟩
  · simp only [serverMain, hst, ne_eq, not_true_eq_false, if_false, Option.some.injEq,
      Prod.mk.injEq] at hm
    obtain ⟨rfl, rfl, rfl⟩ := hm
    simp only [applyCall, Endpoint.call, Option.map_some, Option.some.injEq] at happly
    subst happly
    exact .inl ⟨⟨.inr (.inr (.inl rfl)), hst, by simp, by simp⟩, .inl rfl⟩
  · simp only [serverMain, hret, ne_eq, not_true_eq_false, if_false, Option.some.injEq,
      Prod.mk.injEq] at hm
    obtain ⟨rfl, rfl, rfl⟩ := hm
    simp only [applyCall, Endpoint.call, Option.map_some, Option.some.injEq] at happly
    subst happly
    exact .inl ⟨⟨.inr (.inr (.inr (.inl rfl))), hst, fun _ => rfl, by simp⟩, .inr (.inr ⟨_, rfl⟩)⟩
  · simp only [serverMain, hret, ne_eq, not_true_eq_false, if_false, Option.some.injEq,
      Prod.mk.injEq] at hm
    obtain ⟨rfl, rfl, rfl⟩ := hm
    simp only [applyCall, Endpoint.call, Option.map_some, Option.some.injEq] at happly
    subst happly
    exact .inl ⟨⟨.inr (.inr (.inr (.inr (.inl rfl)))), hst, fun _ => harmed (.inl rfl), by simp⟩,
      .inl rfl⟩
  · simp only [serverMain, hret, ne_eq, not_true_eq_false, if_false, Option.some.injEq,
      Prod.mk.injEq] at hm
    obtain ⟨rfl, rfl, rfl⟩ := hm
    simp only [applyCall, Endpoint.call, Option.map_some, Option.some.injEq] at happly
    subst happly
    exact .inl ⟨⟨.inr (.inr (.inr (.inr (.inr rfl)))), hst, fun _ => harmed (.inr (.inl rfl)),
      fun _ => Nat.succ_ne_zero _⟩, .inr (.inl rfl)⟩
  · simp only [serverMain, hret, ne_eq, not_true_eq_false, if_false, Option.some.injEq,
      Prod.mk.injEq] at hm
    obtain ⟨rfl, rfl, rfl⟩ := hm
    simp only [applyCall, Endpoint.call, Option.map_some, Option.some.injEq] at happly
    subst happly
    exact .inr ⟨⟨rfl, hst, harmed (.inr (.inr rfl)), hrecv rfl⟩, _, rfl⟩

/-- The request comes while the server listens and waits for it. -/
theorem Opening.request (h : Opening c) (hc : Calm host a content c)
    (hs : c.step N (.ep (.cm .connectRequest childId 0)) = some c') :
    Calm host a content c' ∧ Setting c' := by
  obtain ⟨hopen, ep, he, rfl⟩ := step_ep hs
  have hpc : c.pc = .bindWait := h.listening.mp hopen
  have hecho := hc.echo.step (fun hl => by simp [hpc, LoopPc] at hl)
    (l := .ep (.cm .connectRequest childId 0)) ⟨nofun, fun _ => h.requests⟩ hs
  simp only [Endpoint.step, Option.some.injEq] at he
  subst he
  refine ⟨⟨hecho, hc.idle.cm _ _ _, fun p => ?_, hc.room⟩, ⟨.inl hpc, rfl, ?_, ?_⟩⟩
  · exact hc.unseen p
  · simp [hpc]
  · simp [hpc]

/-- `ESTABLISHED` says nothing to the server. -/
theorem cm_established (hserver : c.ep.cb.server ≠ 0) (id : CmId) (ret : Int) :
    c.ep.cm .established id ret = c.ep := by
  simp [Endpoint.cm, cmaEventHandler, hserver]

theorem Calm.server_ne (h : Calm host a content c) : c.ep.cb.server ≠ 0 := by
  have hone : c.ep.cb.server = 1 := h.echo.server
  simp [hone]

/-- The server waits for the advertisement until it comes. -/
theorem Accepted.blocked (h : Accepted c) (hsig : inp.signal = false) :
    serverMain N len inp c.ep.cb c.pc = none := by
  rw [h.pc, serverMain, waitEvent, if_neg]
  simp [h.state, hsig]

/-- Before the server has looked at it the client's memory can be any,
and any advertisement can come. -/
theorem Calm.restart (h : Calm host a content c) (hacc : Accepted c) {a' : RdmaInfo}
    (hlen : a'.len host ≤ c.rdmaMem.length) (mem : BitVec 64 → Byte) :
    Calm host a' (fun j => mem (a'.addr host + BitVec.ofNat 64 j)) { c with remoteMem := mem } where
  echo :=
    { ids := ⟨h.echo.ids.latest, h.echo.ids.nodup, h.echo.ids.begun, h.echo.ids.pending,
        h.echo.ids.closed⟩
      qp := h.echo.qp
      sameHost := h.echo.sameHost
      server := h.echo.server
      sqWr := h.echo.sqWr
      remote := fun _ _ => rfl
      room := .inr hlen
      done := fun hr => absurd hr (by rw [Endpoint.readDone, h.unseen]; simp)
      phase := .inr (.inl ⟨by simp [hacc.pc, EarlyPc], h.idle.sq,
        .waiting (h.unseen _) h.idle.queue (by simp [hacc.state]), h.unseen _⟩) }
  idle := h.idle
  unseen := h.unseen
  room := h.room

end Server

end System

end MegaVM
