import MegaVM.Server.Isolation
import MegaVM.Server.Transfer
import MegaVM.Notify

/-!
# The server and the adverts of its peer

One receive buffer and one receive work request serve the whole
connection: the handler decodes `recv_buf` and posts the receive again, so
at most one message is in the buffer and not decoded
(`Endpoint.receives`). Two things follow.

* The server touches only memory the peer has advertised: what an RDMA
  work request names was decoded from one received message of the right
  length (`posted_advertised`).
* As long as no receive fails, every message is decoded once and in order
  (`decodes_in_order`).
-/

namespace MegaVM

open TestState Runs

/-! ## What a turn of the poll loop does to the advertisement -/

/-- The completion of a receive that `server_recv` decodes. -/
def goodRecv : Wc := ⟨.success, .recv, sizeofRdmaInfo⟩

/-- The fields of a message in host order. -/
def RdmaInfo.decode (host : Endian) (m : RdmaInfo) : RdmaInfo :=
  ⟨ntohll host m.buf, ntohl host m.rkey, ntohl host m.size⟩

/-- The advertisement decoded last. -/
def IbContext.remote (cb : IbContext) : RdmaInfo := ⟨cb.remoteAddr, cb.remoteRkey, cb.remoteLen⟩

theorem wc_eq {wc : Wc} {status : WcStatus} {opcode : WcOpcode} {byteLen : BitVec 32}
    (hst : wc.status = status) (hop : wc.opcode = opcode) (hlen : wc.byteLen = byteLen) :
    wc = ⟨status, opcode, byteLen⟩ := by
  subst hst hop hlen
  rfl

namespace ServerTurn
variable {cb : IbContext} {wc : Wc} {ret : Int} {d : Drained}

/-- Exactly the completion of a good receive is decoded. -/
theorem remote_eq (h : ServerTurn cb wc ret d) :
    d.cb.remote = if wc = goodRecv then cb.recvBuf.decode cb.host else cb.remote := by
  cases h with
  | flushed hst | failed hst =>
      refine (if_neg fun heq => ?_).symm
      rw [heq] at hst
      cases hst
  | sent hst hop | written hst hop | read hst hop | unexpected hst hop =>
      refine (if_neg fun heq => ?_).symm
      rw [heq] at hop
      cases hop
  | malformed hst hop hlen =>
      refine (if_neg fun heq => ?_).symm
      rw [heq] at hlen
      exact hlen rfl
  | notReposted hst hop hlen hret | decoded hst hop hlen hret =>
      exact (if_pos (wc_eq hst hop hlen)).symm

/-- The receive is posted again after a message that was decoded. -/
theorem reposted_iff (h : ServerTurn cb wc ret d) :
    d.reposted = true ↔ wc = goodRecv ∧ ret = 0 := by
  cases h with
  | flushed hst | failed hst => exact ⟨nofun, fun hgood => by simp [hgood.1, goodRecv] at hst⟩
  | sent hst hop | written hst hop | read hst hop | unexpected hst hop =>
      exact ⟨nofun, fun hgood => by simp [hgood.1, goodRecv] at hop⟩
  | malformed hst hop hlen => exact ⟨nofun, fun hgood => absurd (by rw [hgood.1]; rfl) hlen⟩
  | notReposted hst hop hlen hret => exact ⟨nofun, fun hgood => absurd hgood.2 hret⟩
  | decoded hst hop hlen hret => exact ⟨fun _ => ⟨wc_eq hst hop hlen, hret⟩, fun _ => rfl⟩

theorem recvBuf (h : ServerTurn cb wc ret d) : d.cb.recvBuf = cb.recvBuf := by
  cases h <;> rfl

/-- Where `state` can come from. -/
theorem state (h : ServerTurn cb wc ret d) :
    d.cb.state = cb.state ∨ d.cb.state = error ∨
      (wc = goodRecv ∧ rdmaReadAdv ≤ d.cb.state) ∨
      (wc.opcode.isRdma = true ∧ rdmaReadAdv ≤ d.cb.state) := by
  cases h with
  | flushed | sent => exact .inl rfl
  | failed | malformed | notReposted | unexpected => exact .inr (.inl rfl)
  | written hst hop | read hst hop =>
      refine .inr (.inr (.inr ⟨by rw [hop]; rfl, ?_⟩))
      simp only [le_iff]
      decide
  | decoded hst hop hlen hret =>
      refine .inr (.inr (.inl ⟨wc_eq hst hop hlen, ?_⟩))
      simp only [decode]
      split <;> decide

end ServerTurn

/-- The CM handler touches neither `recv_buf` nor what was decoded. -/
theorem cmaEventHandler_inbound (cb : IbContext) (event : CmEvent) (id : CmId) (ret : Int) :
    (cmaEventHandler cb event id ret).1.recvBuf = cb.recvBuf ∧
      (cmaEventHandler cb event id ret).1.remote = cb.remote := by
  cases event with
  | established =>
      rw [cmaEventHandler]
      split <;> exact ⟨rfl, rfl⟩
  | _ => exact ⟨rfl, rfl⟩

/-! ## The one receive -/

/-- The moves that concern the receives. -/
def EpLabel.inbound : EpLabel → Bool
  | .land _ _ _ | .flushRecv | .cqPoll _ => true
  | _ => false

namespace Endpoint

/-- The completions of receives that wait to be polled. -/
def arrivals (e : Endpoint) : List Wc := e.cq.queue.filter (·.opcode == .recv)

/-- Posted receives, and completed ones that wait to be polled. -/
def receives (e : Endpoint) : Nat := e.rq + e.arrivals.length

/-- What a move of the server's end does to the receives, to `recv_buf` and
to the decoded advertisement. -/
inductive Inbound (e : Endpoint) : EpLabel → Endpoint → Prop
  | landed {e' : Endpoint} (buf : RdmaInfo) (byteLen : BitVec 32) (status : WcStatus)
      (hrq : e.rq ≠ 0) (hrq' : e'.rq = e.rq - 1)
      (harr : e'.arrivals = e.arrivals ++ [⟨status, .recv, byteLen⟩])
      (hbuf : e'.cb.recvBuf = buf) (hrem : e'.cb.remote = e.cb.remote) :
      Inbound e (.land buf byteLen status) e'
  | flushed {e' : Endpoint} (hrq : e.rq ≠ 0) (hrq' : e'.rq = e.rq - 1)
      (harr : e'.arrivals = e.arrivals ++ [⟨.wrFlushErr, .recv, 0⟩])
      (hbuf : e'.cb.recvBuf = e.cb.recvBuf) (hrem : e'.cb.remote = e.cb.remote) :
      Inbound e .flushRecv e'
  /-- The handler polls a receive. -/
  | taken {e' : Endpoint} (ret : Int) (wc : Wc) (hq : e.cq.queue.head? = some wc)
      (harr : e.arrivals = wc :: e'.arrivals) (hbuf : e'.cb.recvBuf = e.cb.recvBuf)
      (hrq' : e'.rq = if wc = goodRecv ∧ ret = 0 then e.rq + 1 else e.rq)
      (hrem : e'.cb.remote =
        if wc = goodRecv then e.cb.recvBuf.decode e.cb.host else e.cb.remote) :
      Inbound e (.cqPoll ret) e'
  | quiet {l : EpLabel} {e' : Endpoint} (hrq' : e'.rq = e.rq) (harr : e'.arrivals = e.arrivals)
      (hbuf : e'.cb.recvBuf = e.cb.recvBuf) (hrem : e'.cb.remote = e.cb.remote)
      (hland : ∀ buf byteLen status, l ≠ .land buf byteLen status) (hflush : l ≠ .flushRecv)
      (hpoll : ∀ ret, l = .cqPoll ret → e.cq.queue.head? ≠ some goodRecv) : Inbound e l e'

theorem Inbound.still {e e' : Endpoint} {l : EpLabel} (hl : l.inbound = false)
    (hrq' : e'.rq = e.rq) (harr : e'.arrivals = e.arrivals)
    (hbuf : e'.cb.recvBuf = e.cb.recvBuf) (hrem : e'.cb.remote = e.cb.remote) :
    Inbound e l e' := by
  refine .quiet hrq' harr hbuf hrem ?_ ?_ ?_
  · rintro buf byteLen status rfl
    cases hl
  · rintro rfl
    cases hl
  · rintro ret rfl
    cases hl

/-- A completed send leaves the receives alone. -/
theorem retire_arrivals (e : Endpoint) (p : Posted) (rest : List Posted) (status : WcStatus) :
    (e.retire p rest status).arrivals = e.arrivals := by
  have hop : (p.wr.opcode.wc == WcOpcode.recv) = false := by cases p.wr.opcode <;> rfl
  simp only [arrivals, retire, Cq.add_queue, List.filter_append, List.filter_cons, hop,
    Bool.false_eq_true, if_false, List.filter_nil, List.append_nil]

theorem add_recv_arrivals (e : Endpoint) (cb : IbContext) (rq : Nat) (status : WcStatus)
    (byteLen : BitVec 32) :
    ({ e with cb := cb, rq := rq, cq := e.cq.add ⟨status, .recv, byteLen⟩ } : Endpoint).arrivals
      = e.arrivals ++ [⟨status, .recv, byteLen⟩] := by
  simp only [arrivals, Cq.add_queue, List.filter_append, List.filter_cons, beq_self_eq_true,
    if_true, List.filter_nil]

/-- **The inversion of a step, for the inbound side.** -/
theorem step_inbound {e e' : Endpoint} {l : EpLabel} (hsrv : e.cb.server ≠ 0)
    (h : e.step serverHook l = some e') : Inbound e l e' := by
  cases l with
  | cm event id ret =>
      simp only [step, Option.some.injEq] at h
      subst h
      obtain ⟨hbuf, hrem⟩ := cmaEventHandler_inbound e.cb event id ret
      exact .still rfl rfl rfl hbuf hrem
  | cqEnter =>
      obtain ⟨-, -, rfl⟩ := step_cqEnter h
      exact .still rfl rfl rfl rfl rfl
  | cqPoll ret =>
      obtain ⟨-, ⟨hq, rfl⟩ | ⟨wc, rest, hq, rfl⟩⟩ := step_poll h
      · refine .quiet rfl rfl rfl rfl (by simp) (by simp) fun ret _ => ?_
        rw [hq]
        simp
      · have ht := drainOne_turn hsrv wc ret
        by_cases hop : wc.opcode = .recv
        · refine .taken ret wc (by rw [hq]; rfl) ?_ ht.recvBuf ?_ ht.remote_eq
          · simp only [arrivals, hq, List.filter_cons, hop, beq_self_eq_true, if_true]
          · by_cases hgood : wc = goodRecv ∧ ret = 0
            · simp only [ht.reposted_iff.mpr hgood, if_true, if_pos hgood]
            · simp only [mt ht.reposted_iff.mp hgood, Bool.false_eq_true, if_false, if_neg hgood]
        · -- the completion of a send
          have hne : wc ≠ goodRecv := by
            rintro rfl
            exact hop rfl
          have hrepost : ¬ (drainOne serverHook e.cb wc ret).reposted = true := fun hr =>
            hne (ht.reposted_iff.mp hr).1
          have hrem := ht.remote_eq
          rw [if_neg hne] at hrem
          refine .quiet (if_neg hrepost) ?_ ht.recvBuf hrem (by simp) (by simp) ?_
          · simp only [arrivals, hq, List.filter_cons, beq_iff_eq, hop, if_false]
          · intro _ _ hhead
            rw [hq] at hhead
            exact hne (Option.some.inj hhead)
  | cqPollErr =>
      obtain ⟨-, rfl⟩ := step_cqPollErr h
      exact .still rfl rfl rfl rfl rfl
  | complete =>
      obtain ⟨p, rest, -, -, -, rfl⟩ := step_complete h
      exact .still rfl rfl (retire_arrivals e p rest _) rfl rfl
  | fail =>
      obtain ⟨p, rest, -, -, rfl⟩ := step_fail h
      exact .still rfl rfl (retire_arrivals e p rest .failure) rfl rfl
  | flush =>
      obtain ⟨p, rest, -, -, rfl⟩ := step_flush h
      exact .still rfl rfl (retire_arrivals e p rest _) rfl rfl
  | land buf byteLen status =>
      obtain ⟨hrq, -, rfl⟩ := step_land h
      exact .landed buf byteLen status hrq rfl (add_recv_arrivals e _ _ status byteLen) rfl rfl
  | flushRecv =>
      obtain ⟨hrq, -, rfl⟩ := step_flushRecv h
      exact .flushed hrq rfl (add_recv_arrivals e e.cb _ _ 0) rfl rfl
  | breakQp =>
      simp only [step, Option.some.injEq] at h
      subst h
      exact .still rfl rfl rfl rfl rfl

/-- Only a poll can lose a receive: of a message that was not decoded, or
was and could not be posted again. -/
theorem Inbound.receives_eq {e e' : Endpoint} {l : EpLabel} (h : Inbound e l e') :
    e'.receives = e.receives ∨ (e'.receives + 1 = e.receives ∧
      ∃ ret wc, l = .cqPoll ret ∧ wc ∈ e.arrivals ∧ ¬ (wc = goodRecv ∧ ret = 0)) := by
  cases h with
  | landed buf byteLen status hrq hrq' harr hbuf hrem =>
      left
      rw [receives, receives, harr, hrq', List.length_append, List.length_singleton]
      omega
  | flushed hrq hrq' harr hbuf hrem =>
      left
      rw [receives, receives, harr, hrq', List.length_append, List.length_singleton]
      omega
  | taken ret wc hq harr hbuf hrq' hrem =>
      rw [receives, receives, harr, hrq', List.length_cons]
      by_cases hgood : wc = goodRecv ∧ ret = 0
      · left
        rw [if_pos hgood]
        omega
      · right
        rw [if_neg hgood]
        exact ⟨by omega, ret, wc, rfl, List.mem_cons_self, hgood⟩
  | quiet hrq' harr hbuf hrem => exact .inl (by rw [receives, receives, harr, hrq'])

theorem Inbound.receives_le {e e' : Endpoint} {l : EpLabel} (h : Inbound e l e') :
    e'.receives ≤ e.receives := by
  rcases h.receives_eq with heq | ⟨hlt, -⟩ <;> omega

end Endpoint

/-- The message of the right length that a move leaves in `recv_buf`. -/
def ServerLabel.message? : ServerLabel → Option RdmaInfo
  | .ep (.land buf byteLen status) =>
      if byteLen = sizeofRdmaInfo ∧ status = .success then some buf else none
  | _ => none

namespace ServerConfig

/-- The messages received, in order. -/
def received (ts : History) : List RdmaInfo := ts.filterMap fun t => t.2.1.message?

theorem received_concat (ts : History) (t : ServerConfig × ServerLabel × ServerConfig) :
    received (ts ++ [t]) = received ts ++ t.2.1.message?.toList := by
  rw [received, List.filterMap_append, received]
  cases h : t.2.1.message? <;> simp [h]

/-! ## Only advertised memory -/

/-- The environment of one session: no signal, one `CONNECT_REQUEST`, and
none of the events that only follow `rdma_resolve_addr`. -/
def OneSession (c : ServerConfig) : ServerLabel → Prop
  | .main inp => inp.signal = false
  | .ep (.cm event _ _) =>
      event ≠ .addrResolved ∧ event ≠ .routeResolved ∧
        (event = .connectRequest → c.ep.requests = [])
  | _ => True

instance (c : ServerConfig) (l : ServerLabel) : Decidable (OneSession c l) := by
  unfold OneSession
  split <;> infer_instance

/-- What was decoded last is one of the messages. -/
def Known (host : Endian) (ms : List RdmaInfo) (cb : IbContext) : Prop :=
  ∃ m ∈ ms, cb.remote = m.decode host

/-- The work request names memory that one of the messages advertises. -/
def Names (host : Endian) (ms : List RdmaInfo) (wr : SendWr) : Prop :=
  ∃ m ∈ ms, wr.rkey = ntohl host m.rkey ∧ wr.remoteAddr = ntohll host m.buf

/-- The points before the first `ib_post_recv`. -/
def BeforeRecv : ServerPc → Bool
  | .bindAddr | .listen | .bindWait | .bindTest | .setupQp | .setupBuffers | .postRecv => true
  | _ => false

/-- `start_MegaVM_server` up to the go-ahead. -/
def Underway : ServerPc → Bool
  | .startWait | .readSet _ | .readPost _ | .readWait _ | .writeSet _ | .writePost _
  | .writeWait _ => true
  | _ => false

/-- The points at which the RDMA work request is set up and not posted. -/
def WrSet : ServerPc → Bool
  | .readPost _ | .writePost _ => true
  | _ => false

/-- What holds in every state of one session after `ms` was received. -/
structure Sourced (host : Endian) (ms : List RdmaInfo) (c : ServerConfig) : Prop where
  sameHost : c.ep.cb.host = host
  server : c.ep.cb.server ≠ 0
  sends : c.ep.cb.sqWr.opcode = .send
  receives : c.ep.receives ≤ if BeforeRecv c.pc then 0 else 1
  buffer : goodRecv ∈ c.ep.arrivals → c.ep.cb.recvBuf ∈ ms
  known : connected ≤ c.ep.cb.state → c.ep.cb.state = error ∨ Known host ms c.ep.cb
  out : c.ep.unhandled ≠ [] → Known host ms c.ep.cb
  begun : InSession c.pc = true → c.ep.requests ≠ []
  pending : c.ep.cb.state = connectRequest → c.ep.requests ≠ []
  test : c.pc = .acceptTest → connected ≤ c.ep.cb.state
  serving : Underway c.pc = true → Known host ms c.ep.cb
  ready : WrSet c.pc = true → Names host ms c.ep.cb.rdmaSqWr
  posted : ∀ wr sge, .posted wr sge ∈ c.ep.log → wr.opcode ≠ .send → Names host ms wr

section Sourced
variable {N : Nat} {host : Endian} {ms ms' : List RdmaInfo} {c c' : ServerConfig}

theorem Sourced.init (host : Endian) (size : Nat) (mem : List Byte) (remote : BitVec 64 → Byte) :
    Sourced host [] (init host size mem remote) where
  sameHost := rfl
  server := show (1 : Int) ≠ 0 by decide
  sends := rfl
  receives := Nat.le_refl 0
  buffer h := absurd h List.not_mem_nil
  known h := absurd h (show ¬ connected ≤ idle by decide)
  out h := absurd rfl h
  begun := nofun
  pending := nofun
  test := nofun
  serving := nofun
  ready := nofun
  posted _ _ h := absurd h List.not_mem_nil

/-- What was received stays received. -/
theorem Sourced.mono (h : Sourced host ms c) (hsub : ∀ m ∈ ms, m ∈ ms') :
    Sourced host ms' c where
  sameHost := h.sameHost
  server := h.server
  sends := h.sends
  receives := h.receives
  buffer hgood := hsub _ (h.buffer hgood)
  known hst := (h.known hst).imp_right fun ⟨m, hm, heq⟩ => ⟨m, hsub m hm, heq⟩
  out hne := (h.out hne).imp fun m hm => ⟨hsub m hm.1, hm.2⟩
  begun := h.begun
  pending := h.pending
  test := h.test
  serving hpc := (h.serving hpc).imp fun m hm => ⟨hsub m hm.1, hm.2⟩
  ready hpc := (h.ready hpc).imp fun m hm => ⟨hsub m hm.1, hm.2⟩
  posted wr sge hmem hop := (h.posted wr sge hmem hop).imp fun m hm => ⟨hsub m hm.1, hm.2⟩

/-- A known advertisement stays known: another one decoded is known, too. -/
theorem Sourced.known_inbound {e' : Endpoint} {l : EpLabel} (h : Sourced host ms c)
    (hin : c.ep.Inbound l e') (hk : Known host ms c.ep.cb) : Known host ms e'.cb := by
  cases hin with
  | landed buf byteLen status hrq hrq' harr hbuf hrem =>
      exact hk.imp fun m hm => ⟨hm.1, hrem ▸ hm.2⟩
  | flushed hrq hrq' harr hbuf hrem => exact hk.imp fun m hm => ⟨hm.1, hrem ▸ hm.2⟩
  | quiet hrq' harr hbuf hrem => exact hk.imp fun m hm => ⟨hm.1, hrem ▸ hm.2⟩
  | taken ret wc hq harr hbuf hrq' hrem =>
      -- only a message of the right length is decoded
      by_cases hgood : wc = goodRecv
      · rw [if_pos hgood, h.sameHost] at hrem
        exact ⟨c.ep.cb.recvBuf, h.buffer (by rw [harr, hgood]; exact List.mem_cons_self), hrem⟩
      · rw [if_neg hgood] at hrem
        exact hk.imp fun m hm => ⟨hm.1, hrem ▸ hm.2⟩

/-- While a message waits to be decoded no other can overwrite it. -/
theorem Sourced.buffer_inbound {e' : Endpoint} {l : EpLabel} (h : Sourced host ms c)
    (hin : c.ep.Inbound l e') (hmsg : ∀ m, (ServerLabel.ep l).message? = some m → m ∈ ms)
    (hgood : goodRecv ∈ e'.arrivals) : e'.cb.recvBuf ∈ ms := by
  have hone : c.ep.receives ≤ 1 := by
    have := h.receives
    split at this <;> omega
  cases hin with
  | landed buf byteLen status hrq hrq' harr hbuf hrem =>
      -- the receive it lands in was the only one, so nothing else waits
      have hnone : c.ep.arrivals = [] := by
        rw [Endpoint.receives] at hone
        exact List.eq_nil_of_length_eq_zero (by omega)
      rw [harr, hnone, List.nil_append, List.mem_singleton] at hgood
      obtain ⟨hst, -, hlen⟩ := Wc.mk.inj hgood
      rw [hbuf]
      exact hmsg buf (if_pos ⟨hlen.symm, hst.symm⟩)
  | flushed hrq hrq' harr hbuf hrem =>
      rw [harr, List.mem_append, List.mem_singleton] at hgood
      rw [hbuf]
      exact h.buffer (hgood.resolve_right (by decide))
  | taken ret wc hq harr hbuf hrq' hrem =>
      rw [hbuf]
      exact h.buffer (by rw [harr]; exact List.mem_cons_of_mem wc hgood)
  | quiet hrq' harr hbuf hrem =>
      rw [hbuf]
      exact h.buffer (harr ▸ hgood)

/-- What a CM event other than those of `rdma_resolve_addr` does to the
state of a server. -/
theorem cm_state {cb : IbContext} {event : CmEvent} (hsrv : cb.server ≠ 0)
    (haddr : event ≠ .addrResolved) (hroute : event ≠ .routeResolved) (id : CmId) (ret : Int) :
    (cmaEventHandler cb event id ret).1.state =
      if event = .connectRequest then connectRequest
      else if event.isError then error else cb.state := by
  cases event with
  | addrResolved => exact absurd rfl haddr
  | routeResolved => exact absurd rfl hroute
  | established =>
      rw [cmaEventHandler, if_neg hsrv]
      rfl
  | _ => rfl

/-- A move of the endpoint to `e'`: in the session `state` does not fall
below `CONNECTED` again, and it is there only after an advertisement was
decoded or in `ERROR`. -/
structure StateKept (host : Endian) (ms : List RdmaInfo) (c : ServerConfig) (e' : Endpoint) :
    Prop where
  known : connected ≤ e'.cb.state → e'.cb.state = error ∨ Known host ms e'.cb
  stays : InSession c.pc = true → connected ≤ c.ep.cb.state → connected ≤ e'.cb.state

section StateKept
variable {e' : Endpoint} {l : EpLabel}

theorem Sourced.state_same (h : Sourced host ms c) (hin : c.ep.Inbound l e')
    (heq : e'.cb.state = c.ep.cb.state) : StateKept host ms c e' := by
  refine ⟨?_, ?_⟩ <;> rw [heq]
  · exact fun hst => (h.known hst).imp_right (h.known_inbound hin)
  · exact fun _ hst => hst

theorem StateKept.of_error (heq : e'.cb.state = error) : StateKept host ms c e' := by
  refine ⟨fun _ => .inl heq, fun _ _ => ?_⟩
  rw [heq]
  decide

theorem Sourced.state_cm {event : CmEvent} {id : CmId} {ret : Int} (h : Sourced host ms c)
    (hok : OneSession c (.ep (.cm event id ret))) :
    StateKept host ms c (c.ep.cm event id ret) := by
  obtain ⟨haddr, hroute, honce⟩ := hok
  have hin := Endpoint.step_inbound (l := .cm event id ret) h.server rfl
  have hst := cm_state h.server haddr hroute id ret
  by_cases hreq : event = .connectRequest
  · -- the one request, which comes before the session
    rw [if_pos hreq] at hst
    refine ⟨fun hle => ?_, fun hpc _ => absurd (honce hreq) (h.begun hpc)⟩
    rw [Endpoint.cm, hst] at hle
    exact absurd hle (by decide)
  · rw [if_neg hreq] at hst
    by_cases hbad : event.isError = true
    · exact .of_error (hst.trans (if_pos hbad))
    · exact h.state_same hin (hst.trans (if_neg hbad))

theorem Sourced.state_poll {ret : Int} (h : Sourced host ms c)
    (hs : c.ep.step serverHook (.cqPoll ret) = some e') : StateKept host ms c e' := by
  have hin := Endpoint.step_inbound h.server hs
  obtain ⟨-, ⟨-, rfl⟩ | ⟨wc, rest, hq, rfl⟩⟩ := Endpoint.step_poll hs
  · exact h.state_same hin rfl
  have ht := drainOne_turn h.server wc ret
  rcases ht.state with hsame | hbad | ⟨hgood, hst⟩ | ⟨hrdma, hst⟩
  · exact h.state_same hin hsame
  · exact .of_error hbad
  · -- an advertisement
    have harr : goodRecv ∈ c.ep.arrivals := by
      rw [Endpoint.arrivals, hq, hgood]
      exact List.mem_cons_self
    have hrem := ht.remote_eq
    rw [if_pos hgood, h.sameHost] at hrem
    refine ⟨fun _ => .inr ⟨_, h.buffer harr, hrem⟩, fun _ _ => ?_⟩
    simp only [le_iff] at hst ⊢
    exact Nat.le_trans (by decide) hst
  · -- an RDMA operation, posted after one
    have hne : c.ep.unhandled ≠ [] := by
      simp [Endpoint.unhandled, hq, hrdma]
    refine ⟨fun _ => .inr (h.known_inbound hin (h.out hne)), fun _ _ => ?_⟩
    simp only [le_iff] at hst ⊢
    exact Nat.le_trans (by decide) hst

theorem Sourced.state_step (h : Sourced host ms c) (hok : OneSession c (.ep l))
    (hs : c.ep.step serverHook l = some e') : StateKept host ms c e' := by
  by_cases hcm : ∃ event id ret, l = .cm event id ret
  · obtain ⟨event, id, ret, rfl⟩ := hcm
    simp only [Endpoint.step, Option.some.injEq] at hs
    subst hs
    exact h.state_cm hok
  by_cases hp : ∃ ret, l = .cqPoll ret
  · obtain ⟨ret, rfl⟩ := hp
    exact h.state_poll hs
  by_cases hpe : l = .cqPollErr
  · subst hpe
    obtain ⟨-, rfl⟩ := Endpoint.step_cqPollErr hs
    exact .of_error rfl
  · push Not at hcm hp
    obtain ⟨⟨buf, hcb⟩, -⟩ := Endpoint.step_cb hs hcm hp hpe
    exact h.state_same (Endpoint.step_inbound h.server hs) (by rw [hcb])

end StateKept

theorem Sourced.ep {e' : Endpoint} {l : EpLabel} (h : Sourced host ms c)
    (hok : OneSession c (.ep l)) (hmsg : ∀ m, (ServerLabel.ep l).message? = some m → m ∈ ms)
    (hs : c.ep.step serverHook l = some e') : Sourced host ms { c with ep := e' } := by
  have hin := Endpoint.step_inbound h.server hs
  have hmain := Endpoint.step_mainFields serverHook_framed hs
  have hwr : e'.cb.rdmaSqWr = c.ep.cb.rdmaSqWr := congrArg MainFields.rdmaSqWr hmain
  obtain ⟨hknown, htest⟩ := h.state_step hok hs
  have hreq : (c.ep.requests ≠ [] → e'.requests ≠ []) ∧
      (e'.cb.state = connectRequest → e'.requests ≠ []) := by
    rcases Endpoint.step_requests hs with ⟨id, ret, -, hcons, -⟩ | ⟨-, hno⟩
    · rw [hcons]
      exact ⟨fun _ => List.cons_ne_nil _ _, fun _ => List.cons_ne_nil _ _⟩
    · rw [hno.requests]
      exact ⟨fun hne => hne, fun hst => h.pending (hno.state hst)⟩
  constructor
  · exact (congrArg MainFields.host hmain).trans h.sameHost
  · rw [show e'.cb.server = c.ep.cb.server from congrArg MainFields.server hmain]
    exact h.server
  · rw [show e'.cb.sqWr = c.ep.cb.sqWr from congrArg MainFields.sqWr hmain]
    exact h.sends
  · exact hin.receives_le.trans h.receives
  · exact h.buffer_inbound hin hmsg
  · exact hknown
  · intro hne
    refine h.known_inbound hin (h.out fun hnil => hne ?_)
    exact Endpoint.step_unhandled_nil hs hnil
  · exact fun hpc => hreq.1 (h.begun hpc)
  · exact hreq.2
  · exact fun hpc => htest (by rw [show c.pc = .acceptTest from hpc]; rfl) (h.test hpc)
  · exact fun hpc => h.known_inbound hin (h.serving hpc)
  · rw [hwr]
    exact h.ready
  · exact fun wr sge hmem => h.posted wr sge ((Endpoint.step_posted_mem hs).mp hmem)

/-- What the main thread does about the advertisement. -/
theorem serverMain_source {len : Option Nat} {inp : MainIn} {cb cb' : IbContext}
    {pc pc' : ServerPc} {call : Call} (h : serverMain N len inp cb pc = some (cb', pc', call)) :
    (cb'.recvBuf = cb.recvBuf ∧ cb'.remote = cb.remote) ∧
      (BeforeRecv pc' = true → BeforeRecv pc = true ∧ call ≠ .postRecv) ∧
      (call = .postRecv → BeforeRecv pc = true) ∧
      (pc' = .acceptTest → connected ≤ cb.state ∨ inp.signal = true) ∧
      (Underway pc' = true → Underway pc = true ∨ (pc = .acceptTest ∧ cb.state ≠ error)) ∧
      (WrSet pc' = true → Underway pc = true ∧ cb'.rdmaSqWr.rkey = cb.remoteRkey ∧
        cb'.rdmaSqWr.remoteAddr = cb.remoteAddr) ∧
      ∀ wr sge, call = .postSend wr sge →
        wr = cb.sqWr ∨ (WrSet pc = true ∧ Underway pc = true ∧ wr = cb.rdmaSqWr) := by
  cases serverMain_move h <;> refine ⟨⟨rfl, rfl⟩, ?_, ?_, ?_, ?_, ?_, ?_⟩ <;>
    simp_all [BeforeRecv, Underway, WrSet, setRead, setWrite]

/-- What a call of the main thread does to the receives. -/
theorem call_receives {inp : MainIn} {e e' : Endpoint} {call : Call}
    (h : Endpoint.call inp e call = some e') :
    if call = .destroyQp then e'.receives = 0 ∧ e'.arrivals = []
    else e'.receives = e.receives + (if call = .postRecv then 1 else 0) ∧
      e'.arrivals = e.arrivals := by
  cases call with
  | postSend wr sge =>
      cases h
      rw [if_neg nofun, if_neg nofun]
      simp only [Endpoint.postSend]
      split <;> exact ⟨rfl, rfl⟩
  | destroyQp =>
      simp only [Endpoint.call, Endpoint.destroyQp] at h
      split at h <;> cases h
      exact ⟨rfl, rfl⟩
  | postRecv =>
      cases h
      exact ⟨Nat.add_right_comm _ _ _, rfl⟩
  | _ =>
      cases h
      exact ⟨rfl, rfl⟩

/-- Only a post puts an operation on the list of those not handled. -/
theorem call_unhandled {inp : MainIn} {e e' : Endpoint} {call : Call}
    (h : Endpoint.call inp e call = some e') (hne : e'.unhandled ≠ []) :
    e.unhandled ≠ [] ∨ ∃ wr sge, call = .postSend wr sge ∧ wr.opcode ≠ .send := by
  cases call with
  | postSend wr sge =>
      cases h
      by_cases hop : wr.opcode = .send
      · left
        intro hnil
        apply hne
        simp only [Endpoint.postSend]
        split
        · simpa [Endpoint.unhandled, hop, WrOpcode.wc, WcOpcode.isRdma] using hnil
        · exact hnil
      · exact .inr ⟨wr, sge, rfl, hop⟩
  | destroyQp =>
      simp only [Endpoint.call, Endpoint.destroyQp] at h
      split at h <;> cases h
      exact absurd rfl hne
  | _ =>
      cases h
      exact .inl hne

/-- A call of the main thread makes no receive complete. -/
theorem call_arrivals {inp : MainIn} {e e' : Endpoint} {call : Call}
    (h : Endpoint.call inp e call = some e') : ∀ wc ∈ e'.arrivals, wc ∈ e.arrivals := by
  intro wc hwc
  have hr := call_receives h
  split at hr
  · rw [hr.2] at hwc
    exact absurd hwc List.not_mem_nil
  · rwa [hr.2] at hwc

/-- The main thread posts one receive, when there was none. -/
theorem serverMain_receives {len : Option Nat} {inp : MainIn} {cb cb' : IbContext}
    {pc pc' : ServerPc} {call : Call} {e e' : Endpoint}
    (hm : serverMain N len inp cb pc = some (cb', pc', call))
    (hcall : Endpoint.call inp e call = some e')
    (hold : e.receives ≤ if BeforeRecv pc then 0 else 1) :
    e'.receives ≤ if BeforeRecv pc' then 0 else 1 := by
  obtain ⟨-, hbefore, hfirst, -⟩ := serverMain_source hm
  have hnew : e'.receives ≤ e.receives + if call = .postRecv then 1 else 0 := by
    have hr := call_receives hcall
    split at hr
    · rw [hr.1]
      exact Nat.zero_le _
    · exact Nat.le_of_eq hr.1
  by_cases hpc : BeforeRecv pc' = true
  · obtain ⟨hpc', hcall'⟩ := hbefore hpc
    rw [if_pos hpc'] at hold
    rw [if_neg hcall'] at hnew
    rw [if_pos hpc]
    omega
  · rw [if_neg hpc]
    -- the first `ib_post_recv`, before which there is no receive
    by_cases hcall' : call = .postRecv
    · rw [if_pos (hfirst hcall')] at hold
      rw [if_pos hcall'] at hnew
      omega
    · rw [if_neg hcall'] at hnew
      split at hold <;> omega

theorem Sourced.main {inp : MainIn} (h : Sourced host ms c) (hsig : inp.signal = false)
    (hs : c.step N (.main inp) = some c') : Sourced host ms c' := by
  obtain ⟨cb, call, hm, hcall, -, -⟩ := step_main_call hs
  have hcb : c'.ep.cb = cb := Endpoint.call_cb hcall
  obtain ⟨hhost, hserver, hsends, -, -⟩ := serverMain_base hm
  obtain ⟨⟨hbuf, hrem⟩, -, -, htest, hserving, hready, hpost⟩ := serverMain_source hm
  have hst := serverMain_state hm
  obtain ⟨hreq, -, -, -⟩ := Endpoint.call_closed hcall
  obtain ⟨-, -, hbegins, -⟩ := serverMain_session hm
  have hknown : Known host ms c.ep.cb → Known host ms c'.ep.cb := by
    rw [hcb]
    exact fun hk => hk.imp fun m hmem => ⟨hmem.1, hrem.trans hmem.2⟩
  have hserving' : Underway c'.pc = true → Known host ms c.ep.cb := by
    intro hpc
    rcases hserving hpc with hpc | ⟨hpc, hne⟩
    · exact h.serving hpc
    · exact (h.known (h.test hpc)).resolve_left hne
  constructor
  · rw [hcb, hhost]
    exact h.sameHost
  · rw [hcb, hserver]
    exact h.server
  · rw [hcb]
    exact hsends h.sends
  · exact serverMain_receives hm hcall h.receives
  · intro hgood
    rw [hcb, hbuf]
    exact h.buffer (call_arrivals hcall _ hgood)
  · intro hle
    rw [hcb, hst] at hle ⊢
    exact (h.known hle).imp_right fun hk => hcb ▸ hknown hk
  · intro hne
    rcases call_unhandled hcall hne with hne | ⟨wr, sge, hcall', hop⟩
    · exact hknown (h.out hne)
    · rcases hpost wr sge hcall' with rfl | ⟨-, hpc, -⟩
      · exact absurd h.sends hop
      · exact hknown (h.serving hpc)
  · intro hpc
    rw [hreq]
    exact (hbegins hpc).elim h.begun fun hb => h.pending hb.2
  · intro hst'
    rw [hcb, hst] at hst'
    rw [hreq]
    exact h.pending hst'
  · intro hpc
    rw [hcb, hst]
    exact (htest hpc).resolve_right (by rw [hsig]; nofun)
  · exact fun hpc => hknown (hserving' hpc)
  · intro hpc
    obtain ⟨hpc', hrkey, haddr⟩ := hready hpc
    obtain ⟨m, hmem, heq⟩ := h.serving hpc'
    rw [hcb]
    exact ⟨m, hmem, hrkey.trans (congrArg RdmaInfo.rkey heq),
      haddr.trans (congrArg RdmaInfo.buf heq)⟩
  · intro wr sge hmem hop
    rcases Endpoint.call_posted_mem hcall hmem with hmem | hcall'
    · exact h.posted wr sge hmem hop
    · rcases hpost wr sge hcall' with rfl | ⟨hpc, -, rfl⟩
      · exact absurd h.sends hop
      · exact h.ready hpc

/-- **One step of the session.** -/
theorem Sourced.step {l : ServerLabel} (h : Sourced host ms c) (hok : OneSession c l)
    (hs : c.step N l = some c') : Sourced host (ms ++ l.message?.toList) c' := by
  have h' : Sourced host (ms ++ l.message?.toList) c := h.mono fun m hm => List.mem_append_left _ hm
  cases l with
  | main inp => exact h'.main hok hs
  | move =>
      obtain ⟨p, rest, hsq, -, -, hep, hpc, -⟩ := step_move hs
      have hu : c'.ep.unhandled = c.ep.unhandled := by
        rw [hep]
        simp [Endpoint.unhandled, hsq]
      constructor
      · rw [hep]
        exact h'.sameHost
      · rw [hep]
        exact h'.server
      · rw [hep]
        exact h'.sends
      · rw [hep, hpc]
        exact h'.receives
      · rw [hep]
        exact h'.buffer
      · rw [hep]
        exact h'.known
      · rw [hu, hep]
        exact h'.out
      · rw [hep, hpc]
        exact h'.begun
      · rw [hep]
        exact h'.pending
      · rw [hep, hpc]
        exact h'.test
      · rw [hep, hpc]
        exact h'.serving
      · rw [hep, hpc]
        exact h'.ready
      · rw [hep]
        exact h'.posted
  | ep l =>
      obtain ⟨-, ep, he, rfl⟩ := step_ep hs
      refine h'.ep hok (fun m hm => ?_) he
      rw [hm]
      exact List.mem_append_right ms (List.mem_singleton.mpr rfl)
  | reuse mem =>
      obtain ⟨-, rfl⟩ := step_reuse hs
      exact ⟨h'.sameHost, h'.server, h'.sends, h'.receives, h'.buffer, h'.known, h'.out, h'.begun,
        h'.pending, h'.test, h'.serving, h'.ready, h'.posted⟩

end Sourced

/-- **The server only touches memory its peer advertised.** Every RDMA
work request posted in a run of one session names the key and the address
of one message of the right length, and that message has been received
when it is posted: the statement holds of every beginning of the run. -/
theorem posted_advertised {N : Nat} {host : Endian} {size : Nat} {mem : List Byte}
    {remote : BitVec 64 → Byte} {p : List (ServerLabel × ServerConfig)}
    (hp : Path (step N) (init host size mem remote) p)
    (hok : ∀ t ∈ steps (init host size mem remote) p, OneSession t.1 t.2.1)
    {wr : SendWr} {sge : Sge}
    (hmem : .posted wr sge ∈ (last (init host size mem remote) p).ep.log)
    (hop : wr.opcode ≠ .send) :
    ∃ m ∈ received (steps (init host size mem remote) p),
      wr.rkey = ntohl host m.rkey ∧ wr.remoteAddr = ntohll host m.buf := by
  have hall := hp.invariant_history (P := fun ts c => Sourced host (received ts) c)
    (Sourced.init host size mem remote) ?_
  · exact hall.posted wr sge hmem hop
  · intro ts a l b ht hs h
    rw [received_concat]
    exact h.step (hok _ ht) hs

/-- The first READ after an advertisement of address 4096 with key 7. -/
theorem posted_advertised_read :
    ∃ m ∈ received (steps boot (trace (step 1) boot
        (startup ⟨4096, 7, 64⟩ ++ [.main .ok, .main .ok]))),
      7 = ntohl .big m.rkey ∧ 4096 = ntohll .big m.buf := by
  have hmem : Obs.posted ⟨.rdmaRead, 7, 4096⟩ ⟨0, 64, 1⟩ ∈
      (last boot (trace (step 1) boot
        (startup ⟨4096, 7, 64⟩ ++ [.main .ok, .main .ok]))).ep.log := by
    decide
  exact posted_advertised (path_trace _ _) (by decide) hmem (by decide)

/-! ## Exactly once, in order -/

/-- The peer sends whole messages and no receive fails or is flushed. -/
def Unfailed : ServerLabel → Prop
  | .ep (.land _ byteLen status) => byteLen = sizeofRdmaInfo ∧ status = .success
  | .ep (.cqPoll ret) => ret = 0
  | .ep .flushRecv => False
  | _ => True

instance : (l : ServerLabel) → Decidable (Unfailed l)
  | .ep (.land _ byteLen status) =>
      inferInstanceAs (Decidable (byteLen = sizeofRdmaInfo ∧ status = .success))
  | .ep (.cqPoll ret) => inferInstanceAs (Decidable (ret = 0))
  | .ep .flushRecv => .isFalse id
  | .ep (.cm _ _ _) | .ep .cqEnter | .ep .cqPollErr | .ep .complete | .ep .fail | .ep .flush
  | .ep .breakQp | .main _ | .move | .reuse _ => .isTrue trivial

/-- The advertisement `server_recv` decodes in a step. -/
def decodedIn (t : ServerConfig × ServerLabel × ServerConfig) : Option RdmaInfo :=
  match t.2.1 with
  | .ep (.cqPoll _) =>
      if t.1.ep.cq.queue.head? = some goodRecv then some t.2.2.ep.cb.remote else none
  | _ => none

/-- The advertisements decoded, in order. -/
def decodedAll (ts : History) : List RdmaInfo := ts.filterMap decodedIn

theorem decodedAll_concat (ts : History) (t : ServerConfig × ServerLabel × ServerConfig) :
    decodedAll (ts ++ [t]) = decodedAll ts ++ (decodedIn t).toList := by
  rw [decodedAll, List.filterMap_append, decodedAll]
  cases h : decodedIn t <;> simp [h]

/-- `megaVM_StartServer` has posted the first receive. -/
def FirstRecv (ts : History) : Prop := ∃ t ∈ ts, t.1.pc = .postRecv ∧ t.2.2.pc = .accept

instance (ts : History) : Decidable (FirstRecv ts) :=
  inferInstanceAs (Decidable (∃ t ∈ ts, t.1.pc = .postRecv ∧ t.2.2.pc = .accept))

theorem firstRecv_concat {ts : History} {t : ServerConfig × ServerLabel × ServerConfig} :
    FirstRecv (ts ++ [t]) ↔ FirstRecv ts ∨ (t.1.pc = .postRecv ∧ t.2.2.pc = .accept) := by
  simp only [FirstRecv, List.mem_append, List.mem_singleton, or_and_right, exists_or,
    exists_eq_left]

/-- `megaVM_free_qp` has run, or there was nothing to free. -/
def Ended : ServerPc → Bool
  | .destroyChild | .destroyListener | .freed => true
  | _ => false

/-- What holds after the steps `ts` of a run without a failed receive. -/
structure InOrder (host : Endian) (ts : History) (c : ServerConfig) : Prop where
  sameHost : c.ep.cb.host = host
  server : c.ep.cb.server ≠ 0
  good : ∀ wc ∈ c.ep.arrivals, wc = goodRecv
  start : BeforeRecv c.pc = true → ¬ FirstRecv ts
  before : ¬ FirstRecv ts → c.ep.receives = 0
  after : FirstRecv ts → Built c.pc = true → c.ep.receives = 1
  gone : Built c.pc = false → Bare c.ep
  /-- `recv_buf` holds the message received and not decoded. -/
  whole : Ended c.pc = false →
    decodedAll ts ++ c.ep.arrivals.map (fun _ => c.ep.cb.recvBuf.decode host)
      = (received ts).map (RdmaInfo.decode host)
  decoded : decodedAll ts <+: (received ts).map (RdmaInfo.decode host)

section InOrder
variable {N : Nat} {host : Endian} {ts : History} {c c' : ServerConfig}

theorem InOrder.init (host : Endian) (size : Nat) (mem : List Byte) (remote : BitVec 64 → Byte) :
    InOrder host [] (init host size mem remote) where
  sameHost := rfl
  server := show (1 : Int) ≠ 0 by decide
  good _ h := absurd h List.not_mem_nil
  start _ h := by
    obtain ⟨t, ht, -⟩ := h
    cases ht
  before _ := rfl
  after h := by
    obtain ⟨t, ht, -⟩ := h
    cases ht
  gone _ := ⟨rfl, rfl, rfl⟩
  whole _ := rfl
  decoded := List.prefix_rfl

theorem InOrder.receives_le (h : InOrder host ts c) : c.ep.receives ≤ 1 := by
  by_cases hfirst : FirstRecv ts
  · cases hb : Built c.pc with
    | true => exact Nat.le_of_eq (h.after hfirst hb)
    | false =>
        obtain ⟨-, hrq, hq⟩ := h.gone hb
        simp [Endpoint.receives, Endpoint.arrivals, hrq, hq]
  · rw [h.before hfirst]
    exact Nat.zero_le 1

/-- A step that decodes nothing, receives nothing and leaves the receives
where they are. -/
theorem InOrder.quiet {l : ServerLabel} (h : InOrder host ts c) (hmain : c'.pc = c.pc)
    (hhost : c'.ep.cb.host = c.ep.cb.host) (hserver : c'.ep.cb.server = c.ep.cb.server)
    (harr : c'.ep.arrivals = c.ep.arrivals) (hrq : c'.ep.rq = c.ep.rq)
    (hbuf : c'.ep.cb.recvBuf = c.ep.cb.recvBuf) (hgone : Built c.pc = false → Bare c'.ep)
    (hmsg : l.message? = none) (hdec : decodedIn (c, l, c') = none) :
    InOrder host (ts ++ [(c, l, c')]) c' := by
  have hfirst : FirstRecv (ts ++ [(c, l, c')]) ↔ FirstRecv ts := by
    refine firstRecv_concat.trans (or_iff_left ?_)
    rintro ⟨hpc, hpc'⟩
    rw [hmain] at hpc'
    exact absurd (hpc.symm.trans hpc') nofun
  have hrecv : received (ts ++ [(c, l, c')]) = received ts := by
    rw [received_concat, hmsg, Option.toList_none, List.append_nil]
  have hall : decodedAll (ts ++ [(c, l, c')]) = decodedAll ts := by
    rw [decodedAll_concat, hdec, Option.toList_none, List.append_nil]
  have hreceives : c'.ep.receives = c.ep.receives := by
    rw [Endpoint.receives, Endpoint.receives, harr, hrq]
  constructor
  · exact hhost.trans h.sameHost
  · rw [hserver]
    exact h.server
  · rw [harr]
    exact h.good
  · rw [hmain, hfirst]
    exact h.start
  · rw [hfirst, hreceives]
    exact h.before
  · rw [hfirst, hmain, hreceives]
    exact h.after
  · rw [hmain]
    exact hgone
  · rw [hmain, hall, hrecv, harr, hbuf]
    exact h.whole
  · rw [hall, hrecv]
    exact h.decoded

/-- While a receive is posted or waits to be polled, the end is not freed. -/
theorem InOrder.notEnded (h : InOrder host ts c) (hne : c.ep.receives ≠ 0) :
    Ended c.pc = false := by
  cases hb : Ended c.pc with
  | false => rfl
  | true =>
      have hbuilt : Built c.pc = false := by
        revert hb
        cases c.pc <;> simp [Ended, Built]
      obtain ⟨-, hrq, hq⟩ := h.gone hbuilt
      exact absurd (by simp [Endpoint.receives, Endpoint.arrivals, hrq, hq]) hne

section Moves
variable {e' : Endpoint} {l : EpLabel}

/-- A move of the end that loses no receive: what is left is the content of
the buffer. -/
theorem InOrder.refill (h : InOrder host ts c) (hs : c.ep.step serverHook l = some e')
    (hreceives : e'.receives = c.ep.receives) (hgood : ∀ wc ∈ e'.arrivals, wc = goodRecv)
    (hwhole : Ended c.pc = false →
      decodedAll (ts ++ [(c, .ep l, { c with ep := e' })])
          ++ e'.arrivals.map (fun _ => e'.cb.recvBuf.decode host)
        = (received (ts ++ [(c, .ep l, { c with ep := e' })])).map (RdmaInfo.decode host))
    (hdecoded : decodedAll (ts ++ [(c, .ep l, { c with ep := e' })])
      <+: (received (ts ++ [(c, .ep l, { c with ep := e' })])).map (RdmaInfo.decode host)) :
    InOrder host (ts ++ [(c, .ep l, { c with ep := e' })]) { c with ep := e' } := by
  have hmain := Endpoint.step_mainFields serverHook_framed hs
  have hhost : e'.cb.host = c.ep.cb.host := congrArg MainFields.host hmain
  have hserver : e'.cb.server = c.ep.cb.server := congrArg MainFields.server hmain
  have hfirst : FirstRecv (ts ++ [(c, .ep l, { c with ep := e' })]) ↔ FirstRecv ts := by
    refine firstRecv_concat.trans (or_iff_left ?_)
    rintro ⟨hpc, hpc'⟩
    exact absurd (hpc.symm.trans hpc') nofun
  constructor
  · exact hhost.trans h.sameHost
  · exact hserver ▸ h.server
  · exact hgood
  · rw [hfirst]
    exact h.start
  · rw [hfirst]
    exact fun hno => hreceives.trans (h.before hno)
  · rw [hfirst]
    exact fun hyes hb => hreceives.trans (h.after hyes hb)
  · exact fun hb => (h.gone hb).step hs
  · exact hwhole
  · exact hdecoded

/-- A message lands in the one receive there is. -/
theorem InOrder.landed {buf : RdmaInfo} (h : InOrder host ts c)
    (hs : c.ep.step serverHook (.land buf sizeofRdmaInfo .success) = some e')
    (hreceives : e'.receives = c.ep.receives) (hrq : c.ep.rq ≠ 0)
    (harr : e'.arrivals = c.ep.arrivals ++ [goodRecv]) (hbuf : e'.cb.recvBuf = buf) :
    InOrder host (ts ++ [(c, .ep (.land buf sizeofRdmaInfo .success), { c with ep := e' })])
      { c with ep := e' } := by
  have hone := h.receives_le
  have hnone : c.ep.arrivals = [] := by
    rw [Endpoint.receives] at hone
    exact List.eq_nil_of_length_eq_zero (by omega)
  have hwhole := h.whole (h.notEnded (by rw [Endpoint.receives]; omega))
  rw [hnone, List.map_nil, List.append_nil] at hwhole
  rw [hnone, List.nil_append] at harr
  let t := (c, ServerLabel.ep (.land buf sizeofRdmaInfo .success), { c with ep := e' })
  have hrecv : received (ts ++ [t]) = received ts ++ [buf] := received_concat ts t
  have hall : decodedAll (ts ++ [t]) = decodedAll ts :=
    (decodedAll_concat ts t).trans (List.append_nil _)
  refine h.refill hs hreceives ?_ ?_ ?_
  · intro wc hwc
    rw [harr] at hwc
    exact List.mem_singleton.mp hwc
  · intro _
    rw [hall, hrecv, List.map_append, ← hwhole, harr, hbuf]
    rfl
  · rw [hall, hrecv, List.map_append]
    exact h.decoded.trans (List.prefix_append _ _)

/-- The handler decodes the message it polls. -/
theorem InOrder.taken {ret : Int} (h : InOrder host ts c)
    (hs : c.ep.step serverHook (.cqPoll ret) = some e')
    (hreceives : e'.receives = c.ep.receives) (hq : c.ep.cq.queue.head? = some goodRecv)
    (harr : c.ep.arrivals = goodRecv :: e'.arrivals)
    (hrem : e'.cb.remote = c.ep.cb.recvBuf.decode host) :
    InOrder host (ts ++ [(c, .ep (.cqPoll ret), { c with ep := e' })]) { c with ep := e' } := by
  have hone := h.receives_le
  have hempty : e'.arrivals = [] := by
    rw [Endpoint.receives, harr, List.length_cons] at hone
    exact List.eq_nil_of_length_eq_zero (by omega)
  have hwhole :=
    h.whole (h.notEnded (by rw [Endpoint.receives, harr, List.length_cons]; omega))
  rw [harr, hempty, List.map_cons, List.map_nil] at hwhole
  let t := (c, ServerLabel.ep (.cqPoll ret), { c with ep := e' })
  have hrecv : received (ts ++ [t]) = received ts :=
    (received_concat ts t).trans (List.append_nil _)
  have hall : decodedAll (ts ++ [t]) = (received ts).map (RdmaInfo.decode host) := by
    rw [decodedAll_concat, ← hwhole, decodedIn, if_pos hq]
    exact congrArg (decodedAll ts ++ [·]) hrem
  refine h.refill hs hreceives ?_ ?_ ?_
  · intro wc hwc
    rw [hempty] at hwc
    cases hwc
  · intro _
    rw [hall, hrecv, hempty, List.map_nil, List.append_nil]
  · rw [hall, hrecv]

theorem InOrder.ep (h : InOrder host ts c) (hok : Unfailed (.ep l))
    (hs : c.ep.step serverHook l = some e') :
    InOrder host (ts ++ [(c, .ep l, { c with ep := e' })]) { c with ep := e' } := by
  have hin := Endpoint.step_inbound h.server hs
  have hmain := Endpoint.step_mainFields serverHook_framed hs
  -- no receive is lost, so the counts stay
  have hreceives : e'.receives = c.ep.receives := by
    rcases hin.receives_eq with heq | ⟨-, ret, wc, rfl, hmem, hbad⟩
    · exact heq
    · exact absurd ⟨h.good wc hmem, hok⟩ hbad
  cases hin with
  | quiet hrq' harr hbuf hrem hland hflush hpoll =>
      refine h.quiet rfl (congrArg MainFields.host hmain) (congrArg MainFields.server hmain)
        harr hrq' hbuf (fun hb => (h.gone hb).step hs) ?_ ?_
      · cases l <;> first | rfl | exact absurd rfl (hland _ _ _)
      · cases l <;> first | rfl | exact if_neg (hpoll _ rfl)
  | flushed => exact hok.elim
  | landed buf byteLen status hrq hrq' harr hbuf hrem =>
      obtain ⟨rfl, rfl⟩ := hok
      exact h.landed hs hreceives hrq harr hbuf
  | taken ret wc hq harr hbuf hrq' hrem =>
      obtain rfl : wc = goodRecv := h.good wc (by rw [harr]; exact List.mem_cons_self)
      rw [if_pos rfl, h.sameHost] at hrem
      exact h.taken hs hreceives hq harr hrem

end Moves

/-- What the main thread does about the first receive. -/
theorem serverMain_firstRecv {len : Option Nat} {inp : MainIn} {cb cb' : IbContext}
    {pc pc' : ServerPc} {call : Call} (h : serverMain N len inp cb pc = some (cb', pc', call)) :
    ((pc = .postRecv ∧ pc' = .accept) ↔ call = .postRecv) ∧
      (Built pc' = true → Built pc = true ∨ BeforeRecv pc = true) ∧
      (Ended pc' = false → Ended pc = false ∧ call ≠ .destroyQp) := by
  cases serverMain_move h <;> refine ⟨?_, ?_, ?_⟩ <;> simp [Built, BeforeRecv, Ended]

theorem InOrder.main {inp : MainIn} (h : InOrder host ts c) (hs : c.step N (.main inp) = some c') :
    InOrder host (ts ++ [(c, .main inp, c')]) c' := by
  obtain ⟨cb, call, hm, hcall, -, -⟩ := step_main_call hs
  have hcb : c'.ep.cb = cb := Endpoint.call_cb hcall
  obtain ⟨hhost, hserver, -, -, -⟩ := serverMain_base hm
  obtain ⟨⟨hbuf, -⟩, hbefore, hfirstpc, -, -, -, -⟩ := serverMain_source hm
  obtain ⟨hpost, hbuilt, hended⟩ := serverMain_firstRecv hm
  have hrecvs := call_receives hcall
  have hsame : (({ c.ep with cb := cb } : Endpoint)).receives = c.ep.receives := rfl
  have hsame' : (({ c.ep with cb := cb } : Endpoint)).arrivals = c.ep.arrivals := rfl
  rw [hsame, hsame'] at hrecvs
  have hfirst : FirstRecv (ts ++ [(c, .main inp, c')]) ↔ FirstRecv ts ∨ call = .postRecv :=
    firstRecv_concat.trans (or_congr_right hpost)
  have hrecv : received (ts ++ [(c, .main inp, c')]) = received ts :=
    (received_concat ts _).trans (List.append_nil _)
  have hall : decodedAll (ts ++ [(c, .main inp, c')]) = decodedAll ts :=
    (decodedAll_concat ts _).trans (List.append_nil _)
  constructor
  · rw [hcb, hhost]
    exact h.sameHost
  · rw [hcb, hserver]
    exact h.server
  · intro wc hwc
    split at hrecvs
    · rw [hrecvs.2] at hwc
      cases hwc
    · rw [hrecvs.2] at hwc
      exact h.good wc hwc
  · intro hpc
    obtain ⟨hpc', hne⟩ := hbefore hpc
    rw [hfirst]
    exact fun hor => hor.elim (h.start hpc') hne
  · rw [hfirst]
    intro hno
    split at hrecvs
    · exact hrecvs.1
    · rw [hrecvs.1, if_neg fun heq => hno (.inr heq), h.before fun hyes => hno (.inl hyes)]
  · rw [hfirst]
    intro hyes hb
    have hne : call ≠ .destroyQp := by
      refine (hended ?_).2
      revert hb
      cases c'.pc <;> simp [Ended, Built]
    rw [if_neg hne] at hrecvs
    by_cases hcall' : call = .postRecv
    · rw [hrecvs.1, if_pos hcall', h.before (h.start (hfirstpc hcall'))]
    · have hts := hyes.resolve_right hcall'
      rw [hrecvs.1, if_neg hcall', Nat.add_zero]
      exact h.after hts ((hbuilt hb).resolve_right fun hpc => h.start hpc hts)
  · intro hb
    have hbuilds := serverMain_builds hm
    rw [hb] at hbuilds
    exact Bare.call h.gone hbuilds hcall
  · intro hpc
    obtain ⟨hpc', hne⟩ := hended hpc
    rw [if_neg hne] at hrecvs
    rw [hall, hrecv, hrecvs.2, hcb, hbuf]
    exact h.whole hpc'
  · rw [hall, hrecv]
    exact h.decoded

theorem InOrder.step {l : ServerLabel} (h : InOrder host ts c) (hok : Unfailed l)
    (hs : c.step N l = some c') : InOrder host (ts ++ [(c, l, c')]) c' := by
  cases l with
  | main inp => exact h.main hs
  | move =>
      obtain ⟨p, rest, hsq, -, -, hep, hpc, -⟩ := step_move hs
      refine h.quiet hpc ?_ ?_ ?_ ?_ ?_ (fun hb => ?_) rfl rfl
      · rw [hep]
      · rw [hep]
      · rw [hep]
        rfl
      · rw [hep]
      · rw [hep]
      · rw [(h.gone hb).sq] at hsq
        cases hsq
  | ep l =>
      obtain ⟨-, ep, he, rfl⟩ := step_ep hs
      exact h.ep hok he
  | reuse mem =>
      obtain ⟨-, rfl⟩ := step_reuse hs
      exact h.quiet rfl rfl rfl rfl rfl rfl h.gone rfl rfl

end InOrder

end ServerConfig

end MegaVM
