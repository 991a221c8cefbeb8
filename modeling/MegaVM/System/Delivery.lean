import MegaVM.PingPattern
import MegaVM.System.Joint

/-!
# The page arrives and comes back whole

What the two sides do together to the bytes of the client's page. From
the moment the client has filled it, its page holds the pattern; from the
first RDMA READ on `rdma_buf` holds it too (`Delivering`); and when the
client's last wait is over, no RDMA operation of the server can move a
byte any more, so the client may unmap and free the page (`Ended`).
-/

namespace MegaVM

open TestState

namespace System

open ServerConfig

/-! ## Points of the two programs -/

/-- The client has filled its page. -/
def FilledPage (pc : ClientPc) : Bool := pc == .testPost || LateClient pc

/-- The client's last wait is over. -/
def TestOver : ClientPc → Bool
  | .disconnect | .freeBuffers | .freeQp | .destroyId | .freed => true
  | _ => false

/-- The first RDMA READ of the server's loop is behind it. -/
def FirstRead (N : Nat) : ServerPc → Bool
  | .writeSet _ | .writePost _ | .writeWait _ => true
  | .readSet i | .readPost i | .readWait i => decide (0 < i)
  | .goAhead | .disconnect | .freeBuffers => decide (0 < N)
  | _ => false

/-! ## Bytes in flight -/

section Bytes
variable {host : Endian} {a : RdmaInfo} {content : Nat → Byte} {N : Nat} {c c' : ServerConfig}

/-- The client's page at the server. -/
def HoldsPage (host : Endian) (a : RdmaInfo) (content : Nat → Byte) (c : ServerConfig) : Prop :=
  ∀ j < a.len host, c.remoteMem (a.addr host + BitVec.ofNat 64 j) = content j

/-- What is under way changes no page: SENDs only, or transfers between
two buffers that agree. -/
def Harmless (host : Endian) (a : RdmaInfo) (content : Nat → Byte) (c : ServerConfig) : Prop :=
  (∀ p ∈ c.ep.sq, p.wr.opcode = .send) ∨
    ((∀ p ∈ c.ep.sq, Echoes host a p) ∧ Agree content (a.len host) c.rdmaMem ∧
      a.len host ≤ c.rdmaMem.length)

/-- A byte moves between two places that hold the same byte. -/
theorem Harmless.move (h : Harmless host a content c) (hpage : HoldsPage host a content c)
    (hs : c.step N .move = some c') :
    Harmless host a content c' ∧ HoldsPage host a content c' ∧
      (Agree content (a.len host) c.rdmaMem → Agree content (a.len host) c'.rdmaMem) := by
  obtain ⟨p, rest, hsq, -, hlt, hep, -, -, hmem, hrem⟩ := step_move hs
  have hsend : p.wr.opcode = .send → c'.rdmaMem = c.rdmaMem ∧ c'.remoteMem = c.remoteMem := by
    intro hop
    rw [hmem, hrem, if_neg (by simp [hop]), if_neg (by simp [hop])]
    exact ⟨rfl, rfl⟩
  have hsq' : c'.ep.sq = { p with moved := p.moved + 1 } :: rest := by rw [hep]
  rcases h with hsends | ⟨hout, hagree, hroom⟩
  · obtain ⟨hmem', hrem'⟩ := hsend (hsends p (by simp [hsq]))
    refine ⟨.inl fun q hq => ?_, by rw [HoldsPage, hrem']; exact hpage, by rw [hmem']; exact id⟩
    rw [hsq'] at hq
    rcases List.mem_cons.mp hq with rfl | hq
    · exact hsends p (by simp [hsq])
    · exact hsends q (by simp [hsq, hq])
  have hout' : ∀ q ∈ c'.ep.sq, Echoes host a q := by
    intro q hq
    rw [hsq'] at hq
    rcases List.mem_cons.mp hq with rfl | hq
    · exact hout p (by simp [hsq])
    · exact hout q (by simp [hsq, hq])
  suffices hstay : Agree content (a.len host) c'.rdmaMem ∧ HoldsPage host a content c' ∧
      c'.rdmaMem.length = c.rdmaMem.length from
    ⟨.inr ⟨hout', hstay.1, by rw [hstay.2.2]; exact hroom⟩, hstay.2.1, fun _ => hstay.1⟩
  rcases hout p (by simp [hsq]) with hop | ⟨haddr, hlen⟩
  · obtain ⟨hmem', hrem'⟩ := hsend hop
    rw [HoldsPage, hmem', hrem']
    exact ⟨hagree, hpage, rfl⟩
  · cases hop : p.wr.opcode with
    | send =>
        obtain ⟨hmem', hrem'⟩ := hsend hop
        rw [HoldsPage, hmem', hrem']
        exact ⟨hagree, hpage, rfl⟩
    | rdmaRead =>
        rw [if_pos hop, haddr, hpage p.moved (by omega)] at hmem
        rw [if_neg (by simp [hop])] at hrem
        rw [HoldsPage, hmem, hrem, List.length_set]
        exact ⟨hagree.set (by omega), hpage, rfl⟩
    | rdmaWrite =>
        rw [if_neg (by simp [hop])] at hmem
        rw [if_pos hop, haddr, List.getD_eq_getElem?_getD, hagree p.moved (by omega)] at hrem
        rw [hmem]
        refine ⟨hagree, ?_, rfl⟩
        intro j hj
        rw [hrem]
        have hbound := a.len_lt host
        by_cases hjk : j = p.moved
        · rw [hjk, Function.update_self]
          rfl
        · rw [Function.update_of_ne fun heq => hjk (offset_inj (by omega) (by omega) heq)]
          exact hpage j hj

/-- A phase in which the buffers agree moves no other byte. -/
theorem Phase.harmless (h : Phase host a content c) (hagree : Agree content (a.len host) c.rdmaMem)
    (hroom : a.len host ≤ c.rdmaMem.length) : Harmless host a content c := by
  rcases h with h | h | h | h
  · exact .inl (by simp [h.sq])
  · exact .inl h.sends
  · obtain ⟨p, hsq, -, haddr, hlen, -⟩ := h.out
    refine .inr ⟨fun q hq => ?_, hagree, hroom⟩
    obtain rfl : q = p := by simpa [hsq] using hq
    exact .inr ⟨haddr, hlen.le⟩
  · exact .inr ⟨h.out, h.agree, hroom⟩

/-- A thread that gets past the wait for a READ, or is behind it, finds
the page in `rdma_buf`. -/
theorem Phase.agree_of_write (h : Phase host a content c)
    (hpc : ∃ i, c.pc = .readWait i ∨ c.pc = .writeSet i ∨ c.pc = .writePost i ∨
      c.pc = .writeWait i) :
    Reading host a content c ∨ Agree content (a.len host) c.rdmaMem := by
  obtain ⟨i, hpc⟩ := hpc
  rcases h with h | h | h | h
  · have := h.pc
    rcases hpc with hpc | hpc | hpc | hpc <;> simp [hpc, EarlyPc] at this
  · have := h.pc
    rcases hpc with hpc | hpc | hpc | hpc <;> simp [hpc, ReadyPc] at this
  · exact .inl h
  · exact .inr h.agree

end Bytes

/-! ## The invariant of the page -/

/-- What the client advertises, as the server decodes it. -/
def advertised (server : Endian) (s : System) : RdmaInfo :=
  s.client.ep.cb.sendBuf.carry s.client.ep.cb.host server

/-- The client has filled its page with `content`. -/
structure Delivering (server : Endian) (N : Nat) (content : Nat → Byte) (s : System) : Prop where
  pattern : PingPattern bufSize content
  addr : (advertised server s).addr server = s.client.ep.cb.startDmaAddr
  len : (advertised server s).len server = bufSize
  told : ∀ event ∈ s.toServer, event ≠ .connectRequest
  page : HoldsPage server (advertised server s) content s.server
  agree : FirstRead N s.server.pc = true →
    Agree content ((advertised server s).len server) s.server.rdmaMem
  /-- Up to the go-ahead. -/
  echo : LateServer s.server.pc = false →
    EchoInv server (advertised server s) content s.server
  /-- After it: the queue pair is in the error state but for the time up to
  the disconnect. -/
  late : LateServer s.server.pc = true → s.server.ep.qpErr = true ∨
    (s.server.pc = .disconnect ∧ s.server.ep.cb.childCmId = s.server.ep.cb.qp ∧
      Harmless server (advertised server s) content s.server)

section Client
variable {N : Nat} {s s' : System} {l : SysLabel} {server : Endian}

/-- What the client has filled and advertised stays as it is. -/
theorem filled_client {c c' : ClientConfig} {l : ClientLabel} (hpc : FilledPage c.pc = true)
    (hs : c.step l = some c') :
    FilledPage c'.pc = true ∧ c'.ep.cb.mainFields = c.ep.cb.mainFields := by
  cases l with
  | main inp =>
      obtain ⟨cb, call, hm, he⟩ := ClientConfig.step_main hs
      have hcb : c'.ep.cb = cb := Endpoint.call_cb he
      have hmove := clientMain_move hm
      rw [hcb]
      revert hpc hmove
      generalize c.pc = pc, c'.pc = pc'
      intro hpc hmove
      cases hmove <;> first | exact ⟨rfl, rfl⟩ | cases hpc
  | move =>
      obtain ⟨p, rest, -, rfl⟩ := ClientConfig.step_move hs
      exact ⟨hpc, rfl⟩
  | ep l =>
      obtain ⟨-, ep, he, rfl⟩ := ClientConfig.step_ep hs
      exact ⟨hpc, Endpoint.step_mainFields clientHook_framed he⟩

theorem filled_step (hpc : FilledPage s.client.pc = true) (hs : step N s l = some s') :
    FilledPage s'.client.pc = true ∧
      s'.client.ep.cb.mainFields = s.client.ep.cb.mainFields := by
  rcases step_client hs with heq | ⟨l', hl'⟩
  · rw [heq]
    exact ⟨hpc, rfl⟩
  · exact filled_client hpc hl'

/-- A statement of the client behind the filling stores nothing, and tells
the server of its disconnect at most. -/
theorem filled_call {inp : MainIn} {cb cb' : IbContext} {pc pc' : ClientPc} {call : Call}
    (hm : clientMain inp cb pc = some (cb', pc', call)) (hpc : FilledPage pc = true) :
    (∀ base mem, call.store base mem = mem) ∧
      ∀ event ∈ call.toPeer, event ≠ .connectRequest := by
  cases clientMain_move hm <;>
    simp [FilledPage, LateClient, Call.store, Call.toPeer] at hpc ⊢

/-- The move of the server that is part of a step of the two. -/
inductive ServerPart (s : System) : SysLabel → ServerLabel → Prop
  | main (inp : MainIn) : ServerPart s (.serverMain inp) (.main inp)
  | cm (event : CmEvent) (hmem : event ∈ s.toServer) :
      ServerPart s .serverCm (.ep (.cm event childId 0))
  | ep (l : EpLabel) (hcm : ∀ event id ret, l ≠ .cm event id ret)
      (hland : ∀ buf byteLen status, l ≠ .land buf byteLen status) :
      ServerPart s (.serverEp l) (.ep l)
  | move : ServerPart s .serverMove .move
  | land (msg : RdmaInfo) (len : BitVec 32) (hflying : s.advert = .flying msg len) :
      ServerPart s .landAdvert
        (.ep (.land (msg.carry s.client.ep.cb.host s.server.ep.cb.host) len .success))

/-- A step of the two is a step of the server's machine, or leaves the
server alone. -/
theorem step_server (hpc : FilledPage s.client.pc = true) (hs : step N s l = some s') :
    s'.server = s.server ∨ ∃ l', ServerPart s l l' ∧ s.server.step N l' = some s'.server := by
  cases l with
  | serverMain inp =>
      obtain ⟨cb, pc, call, c, hm, hstep, rfl⟩ := step_serverMain hs
      exact .inr ⟨_, .main inp, hstep⟩
  | clientMain inp =>
      obtain ⟨cb, pc, call, ep, hm, -, rfl⟩ := step_clientMain hs
      exact .inl (by simp only [(filled_call hm hpc).1])
  | serverCm =>
      obtain ⟨event, rest, c, hhead, hstep, rfl⟩ := step_serverCm hs
      exact .inr ⟨_, .cm event (by simp [hhead]), hstep⟩
  | clientCm =>
      obtain ⟨event, rest, -, -, rfl⟩ := step_clientCm hs
      exact .inl rfl
  | serverEp l =>
      obtain ⟨hmay, c, hstep, rfl⟩ := step_serverEp hs
      obtain ⟨hcm, hland⟩ := mayMove_moves hmay
      exact .inr ⟨_, .ep l hcm hland, hstep⟩
  | clientEp l =>
      obtain ⟨-, ep, -, rfl⟩ := step_clientEp hs
      exact .inl rfl
  | serverMove =>
      obtain ⟨c, hstep, rfl⟩ := Option.map_eq_some_iff.mp hs
      exact .inr ⟨_, .move, hstep⟩
  | clientMove =>
      obtain ⟨ep, -, rfl⟩ := Option.map_eq_some_iff.mp hs
      exact .inl rfl
  | transmitAdvert =>
      obtain ⟨wire, -, rfl⟩ := Option.map_eq_some_iff.mp hs
      exact .inl rfl
  | transmitGoAhead =>
      obtain ⟨wire, -, rfl⟩ := Option.map_eq_some_iff.mp hs
      exact .inl rfl
  | landAdvert =>
      obtain ⟨msg, len, c, hflying, hstep, rfl⟩ := step_landAdvert hs
      exact .inr ⟨_, .land msg len hflying, hstep⟩
  | landGoAhead =>
      obtain ⟨msg, len, ep, -, -, rfl⟩ := step_landGoAhead hs
      exact .inl rfl

/-- No further request comes to the server. -/
theorem noRequest_step (hpc : FilledPage s.client.pc = true)
    (h : ∀ event ∈ s.toServer, event ≠ .connectRequest) (hs : step N s l = some s') :
    ∀ event ∈ s'.toServer, event ≠ .connectRequest := by
  have hmore : ∀ events : List CmEvent, (∀ event ∈ events, event ≠ .connectRequest) →
      ∀ event ∈ s.toServer ++ events, event ≠ .connectRequest := by
    intro events hev event hmem
    exact (List.mem_append.mp hmem).elim (h event) (hev event)
  cases l with
  | serverMain inp =>
      obtain ⟨cb, pc, call, c, hm, hstep, rfl⟩ := step_serverMain hs
      exact h
  | clientMain inp =>
      obtain ⟨cb, pc, call, ep, hm, -, rfl⟩ := step_clientMain hs
      exact hmore _ (filled_call hm hpc).2
  | serverCm =>
      obtain ⟨event, rest, c, hhead, hstep, rfl⟩ := step_serverCm hs
      exact fun e hmem => h e (by simp [hhead, show e ∈ rest from hmem])
  | clientCm =>
      obtain ⟨event, rest, -, -, rfl⟩ := step_clientCm hs
      exact hmore _ (by cases event <;> simp [CmEvent.toPeer])
  | serverEp l =>
      obtain ⟨-, c, -, rfl⟩ := step_serverEp hs
      exact h
  | clientEp l =>
      obtain ⟨-, ep, -, rfl⟩ := step_clientEp hs
      exact h
  | landAdvert =>
      obtain ⟨msg, len, c, -, -, rfl⟩ := step_landAdvert hs
      exact h
  | landGoAhead =>
      obtain ⟨msg, len, ep, -, -, rfl⟩ := step_landGoAhead hs
      exact h
  | _ =>
      obtain ⟨x, -, rfl⟩ := Option.map_eq_some_iff.mp hs
      exact h

end Client

/-! ## What the joint invariant says up to the go-ahead -/

section Early
variable {N : Nat} {s s' : System} {l : SysLabel} {client server : Endian}
  {content : Nat → Byte}

/-- The client has filled its page and the server has not sent the
go-ahead. -/
structure BeforeGoAhead (N : Nat) (s : System) : Prop where
  up : s.server.ep.qpErr = false
  told : Told s.toServer
  landing : ∀ msg len, s.advert = .flying msg len →
    msg = s.client.ep.cb.sendBuf ∧ len = sizeofRdmaInfo ∧ s.server.ep.received = false
  leaving : ∀ inp c, inp.ret = 0 → inp.signal = false →
    s.server.step N (.main inp) = some c → LateServer c.pc = true → c.pc = .disconnect

theorem served_notLate {host : Endian} {a : RdmaInfo} {c : ServerConfig}
    (h : Served host a content c) : LateServer c.pc = false := by
  rcases h.stage with hl | hg
  · rw [hl.pc]
    rfl
  · have hpc := hg.pc
    revert hpc
    cases c.pc <;> simp [GoingPc, LateServer]

theorem binding_notFilled {c : ClientConfig} {toClient : List CmEvent}
    (h : Binding c toClient) : FilledPage c.pc = false := by
  cases h with
  | start hpc | address hpc | route hpc =>
      rw [hpc]
      rfl
  | bound hpc =>
      rcases hpc with hpc | hpc | hpc | hpc | hpc | hpc <;> rw [hpc] <;> rfl

theorem Joint.beforeGoAhead (h : Joint client server s) (hpc : FilledPage s.client.pc = true)
    (hearly : LateServer s.server.pc = false) : BeforeGoAhead N s := by
  have hconn : ¬ Connecting s.client := by
    intro hconn
    rw [hconn.pc] at hpc
    cases hpc
  have hblocked : Accepted s.server → ∀ inp c, inp.ret = 0 → inp.signal = false →
      s.server.step N (.main inp) = some c → LateServer c.pc = true → c.pc = .disconnect := by
    intro hacc inp c _ hsig hs
    obtain ⟨cb, call, hm, -⟩ := step_main_call hs
    rw [hacc.blocked hsig] at hm
    cases hm
  cases h with
  | opening hbase hidle hbind =>
      -- the client has not even asked for the connection
      rw [binding_notFilled hbind] at hpc
      cases hpc
  | requested hbase hidle hc => exact absurd hc hconn
  | setting hbase hidle hc => exact absurd hc hconn
  | accepted hbase hidle hc => exact absurd hc hconn
  | sending hbase hidle hsend hpage hcalm hacc hev hev' hwire =>
      refine ⟨hcalm.idle.qpErr, hev, ?_, hblocked hacc⟩
      intro msg len hflying
      rw [hwire.1] at hflying
      cases hflying
  | sent hadv ha hhost hcalm hnul hacc hev hev' hadvert =>
      refine ⟨hcalm.idle.qpErr, hev, ?_, hblocked hacc⟩
      intro msg len hflying
      rcases hadvert with hw | hw <;> rw [hw] at hflying
      · cases hflying
      · obtain ⟨rfl, rfl⟩ := Wire.flying.inj hflying
        exact ⟨rfl, rfl, hcalm.unseen _⟩
  | serving hwait hserved hev hev' hadvert =>
      refine ⟨hserved.qpErr, hev, ?_, ?_⟩
      · intro msg len hflying
        rcases hadvert with ⟨hw, -⟩ | ⟨hw, -⟩ <;> rw [hw] at hflying <;> cases hflying
      · intro inp c hret hsig hs hlate
        obtain ⟨cb, call, hm, -⟩ := step_main_call hs
        rcases (hserved.main hret hsig hm hs).2 with hserved' | hdis
        · rw [served_notLate hserved'] at hlate
          cases hlate
        · exact hdis
  | late h =>
      rw [h.server] at hearly
      cases hearly

/-- Where the two are while the client waits, after the go-ahead, and
before both. -/
theorem Joint.loop_or_early (N : Nat) (h : Joint client server s) :
    (Waiting s.client ∧ LateServer s.server.pc = false) ∨ Late s ∨
      (TestOver s.client.pc = false ∧ LateServer s.server.pc = false ∧
        FirstRead N s.server.pc = false) := by
  have hbind : ∀ {toClient}, Binding s.client toClient → TestOver s.client.pc = false := by
    intro toClient hb
    have hpc := binding_notFilled hb
    revert hpc
    cases s.client.pc <;> simp [FilledPage, LateClient, TestOver]
  have hopen : Opening s.server → LateServer s.server.pc = false ∧
      FirstRead N s.server.pc = false := by
    intro ho
    rcases ho.pc with hpc | hpc | hpc <;> rw [hpc] <;> exact ⟨rfl, rfl⟩
  have hconnect : Connecting s.client → TestOver s.client.pc = false := by
    intro hc
    rw [hc.pc]
    rfl
  have haccept : Accepted s.server → LateServer s.server.pc = false ∧
      FirstRead N s.server.pc = false := by
    intro ha
    rw [ha.pc]
    exact ⟨rfl, rfl⟩
  cases h with
  | opening hbase hidle hb hcalm ho => exact .inr (.inr ⟨hbind hb, hopen ho⟩)
  | requested hbase hidle hc hcalm ho => exact .inr (.inr ⟨hconnect hc, hopen ho⟩)
  | setting hbase hidle hc hcalm hset =>
      refine .inr (.inr ⟨hconnect hc, ?_⟩)
      rcases hset.pc with hpc | hpc | hpc | hpc | hpc | hpc <;> rw [hpc] <;> exact ⟨rfl, rfl⟩
  | accepted hbase hidle hc hcalm hacc => exact .inr (.inr ⟨hconnect hc, haccept hacc⟩)
  | sending hbase hidle hsend hpage hcalm hacc =>
      refine .inr (.inr ⟨?_, haccept hacc⟩)
      cases hsend with
      | before hpc => rcases hpc with hpc | hpc | hpc <;> rw [hpc] <;> rfl
      | prepared hpc => rcases hpc with hpc | hpc <;> rw [hpc] <;> rfl
  | sent hadv ha hhost hcalm hnul hacc => exact .inl ⟨hadv.waiting, (haccept hacc).1⟩
  | serving hwait hserved => exact .inl ⟨hwait, served_notLate hserved⟩
  | late h => exact .inr (.inl h)

theorem Joint.late_of_server (h : Joint client server s)
    (hlate : LateServer s.server.pc = true) : Late s := by
  rcases h.loop_or_early 0 with ⟨-, hno⟩ | hl | ⟨-, hno, -⟩
  · simp [hno] at hlate
  · exact hl
  · simp [hno] at hlate

/-- Before the go-ahead every move of the server is one of a session with
a peer that advertises once. -/
theorem peerOnce_of_part {l' : ServerLabel} (hb : BeforeGoAhead N s)
    (hhost : s.server.ep.cb.host = server) (hok : Healthy s l) (hpart : ServerPart s l l') :
    PeerOnce (advertised server s) s.server l' := by
  cases hpart with
  | main inp => exact hok
  | cm event hmem =>
      obtain rfl := hb.told event hmem
      exact ⟨nofun, nofun⟩
  | ep l hcm hland =>
      cases l with
      | cm event id ret => exact absurd rfl (hcm event id ret)
      | land buf byteLen status => exact absurd rfl (hland buf byteLen status)
      | cqPoll ret => exact .inl hok
      | cqPollErr => exact hok.elim
      | _ => trivial
  | move => trivial
  | land msg len hflying =>
      obtain ⟨rfl, rfl, hnew⟩ := hb.landing msg len hflying
      rw [hhost]
      exact ⟨rfl, rfl, rfl, hnew⟩

end Early

/-! ## The steps of the server -/

section Server
variable {N : Nat} {s : System} {c : ServerConfig} {l : ServerLabel} {server : Endian}
  {content : Nat → Byte}

/-- What `Delivering` says of the server. -/
structure ServerDelivers (N : Nat) (host : Endian) (a : RdmaInfo) (content : Nat → Byte)
    (c : ServerConfig) : Prop where
  page : HoldsPage host a content c
  agree : FirstRead N c.pc = true → Agree content (a.len host) c.rdmaMem
  echo : LateServer c.pc = false → EchoInv host a content c
  late : LateServer c.pc = true → c.ep.qpErr = true ∨
    (c.pc = .disconnect ∧ c.ep.cb.childCmId = c.ep.cb.qp ∧ Harmless host a content c)

/-- Only the wait for the first READ leads behind it. -/
theorem firstRead_move {len : Option Nat} {inp : MainIn} {cb cb' : IbContext}
    {pc pc' : ServerPc} {call : Call} (hm : serverMain N len inp cb pc = some (cb', pc', call))
    (hearly : LateServer pc = false) (hnew : FirstRead N pc' = true)
    (hold : ¬ FirstRead N pc = true) (hlate : LateServer pc' = false ∨ pc' = .disconnect) :
    ∃ i, pc = .readWait i := by
  cases serverMain_move hm <;> simp_all [FirstRead, LateServer]

theorem Delivering.before (h : Delivering server N content s) (hb : BeforeGoAhead N s)
    (hearly : LateServer s.server.pc = false) (hpeer : PeerOnce (advertised server s) s.server l)
    (hreuse : ∀ mem, l ≠ .reuse mem) (hs : s.server.step N l = some c) :
    ServerDelivers N server (advertised server s) content c := by
  have hecho := h.echo hearly
  have hphase := hecho.phase.resolve_left (by simp [hb.up])
  have hnul : ∃ j < (advertised server s).len server, content j = 0 :=
    ⟨bufSize - 1, by rw [h.len]; decide, h.pattern.nul⟩
  have hecho' := hecho.step (fun _ => hnul) hpeer hs
  have hleave : LateServer c.pc = true → c.pc = .disconnect := by
    intro hlate
    cases l with
    | main inp => exact hb.leaving inp c hpeer.1 hpeer.2 hs hlate
    | _ =>
        rw [server_pc hs nofun, hearly] at hlate
        cases hlate
  refine ⟨hecho'.remote, ?_, fun _ => hecho', fun hlate => ?_⟩
  · intro hfirst
    cases l with
    | main inp =>
        obtain ⟨cb, call, hm, -, hmem, -⟩ := step_main_call hs
        rw [hmem]
        by_cases hf : FirstRead N s.server.pc = true
        · exact h.agree hf
        · have hlate : LateServer c.pc = false ∨ c.pc = .disconnect := by
            cases hl : LateServer c.pc with
            | false => exact .inl rfl
            | true => exact .inr (hleave hl)
          obtain ⟨i, hpc⟩ := firstRead_move hm hearly hfirst hf hlate
          -- the first READ has completed, since its wait is over
          exact (Phase.agree_of_write hphase ⟨i, .inl hpc⟩).resolve_left
            fun hr => hr.main hpeer.2 hs
    | move =>
        obtain ⟨p, rest, hsq, -, -, -, hpc, -⟩ := step_move hs
        have hagree := h.agree (by rw [← hpc]; exact hfirst)
        have hroom := hecho.room.resolve_left
          (by simp [hphase.not_gone (by simp [hsq] : s.server.ep.sq ≠ [])])
        exact ((Phase.harmless hphase hagree hroom).move hecho.remote hs).2.2 hagree
    | ep l =>
        obtain ⟨-, ep, -, rfl⟩ := step_ep hs
        exact h.agree hfirst
    | reuse mem => exact absurd rfl (hreuse mem)
  · have hpc := hleave hlate
    refine hecho'.phase.imp_right fun hp => ⟨hpc, (hecho'.qp (by rw [hpc]; rfl)).symm, ?_⟩
    rcases hp with hp | hp | hp | hp
    · exact .inl (by simp [hp.sq])
    · exact .inl hp.sends
    · obtain ⟨i, hi⟩ := hp.pc
      rw [hpc] at hi
      cases hi
    · exact .inr ⟨hp.out, hp.agree, hecho'.room.resolve_left (by simp [hpc, bufferGone])⟩

/-- The moves of an end only take from its send queue. -/
theorem Harmless.ep {host : Endian} {a : RdmaInfo} {c : ServerConfig} {e : Endpoint}
    (h : Harmless host a content c) (hsq : ∀ p ∈ e.sq, p ∈ c.ep.sq) :
    Harmless host a content { c with ep := e } := by
  rcases h with h | ⟨hout, hagree, hroom⟩
  · exact .inl fun p hp => h p (hsq p hp)
  · exact .inr ⟨fun p hp => hout p (hsq p hp), hagree, hroom⟩

theorem firstRead_late {len : Option Nat} {inp : MainIn} {cb cb' : IbContext}
    {pc pc' : ServerPc} {call : Call} (hm : serverMain N len inp cb pc = some (cb', pc', call))
    (hlate : LateServer pc = true) (h : FirstRead N pc' = true) : FirstRead N pc = true := by
  cases serverMain_move hm <;> simp_all [LateServer, FirstRead]

/-- After the go-ahead the server disconnects, and nothing moves then. -/
theorem ServerDelivers.after {host : Endian} {a : RdmaInfo} {c c' : ServerConfig}
    (h : ServerDelivers N host a content c) (hlate : LateServer c.pc = true)
    (hcm : ∀ id ret, l ≠ .ep (.cm .connectRequest id ret)) (hreuse : ∀ mem, l ≠ .reuse mem)
    (hs : c.step N l = some c') : ServerDelivers N host a content c' := by
  have hlater : LateServer c'.pc = true → (LateServer c'.pc = false → EchoInv host a content c') :=
    fun htrue hfalse => by simp [htrue] at hfalse
  cases l with
  | main inp =>
      obtain ⟨cb, call, hm, hep, hmem, hrem⟩ := step_main_call hs
      have hlate' : LateServer c'.pc = true := (serverMain_late hm hlate).1
      refine ⟨by rw [HoldsPage, hrem]; exact h.page, ?_, hlater hlate', fun _ => .inl ?_⟩
      · rw [hmem]
        intro hfirst
        exact h.agree (firstRead_late hm hlate hfirst)
      · rcases h.late hlate with herr | ⟨hpc, hid, -⟩
        · exact call_qpErr hep herr
        · rw [main_disconnect hpc, Option.some.injEq] at hs
          subst hs
          simp [hid]
  | move =>
      obtain ⟨p, rest, hsq, hup, -, hep, hpc, -⟩ := step_move hs
      obtain ⟨hdis, hid, hharm⟩ := (h.late hlate).resolve_left (by simp [hup])
      obtain ⟨hharm', hpage', hagree'⟩ := hharm.move h.page hs
      have hcb : c'.ep.cb = c.ep.cb := by rw [hep]
      refine ⟨hpage', fun hfirst => hagree' (h.agree (hpc ▸ hfirst)),
        hlater (by rw [hpc]; exact hlate), fun _ => .inr ⟨hpc.trans hdis, ?_, hharm'⟩⟩
      rw [hcb]
      exact hid
  | ep l =>
      obtain ⟨-, ep, he, rfl⟩ := step_ep hs
      refine ⟨h.page, h.agree, hlater hlate, fun _ => ?_⟩
      rcases h.late hlate with herr | ⟨hpc, hid, hharm⟩
      · exact .inl ((Endpoint.step_sq he).1 herr)
      · refine .inr ⟨hpc, ?_, hharm.ep (Endpoint.step_sq_mem he)⟩
        have hqp := congrArg MainFields.qp (Endpoint.step_mainFields serverHook_framed he)
        rcases Endpoint.step_requests he with ⟨id, ret, rfl, -⟩ | ⟨-, hno⟩
        · exact absurd rfl (hcm id ret)
        · exact (hno.child.trans hid).trans hqp.symm
  | reuse mem => exact absurd rfl (hreuse mem)

end Server

/-! ## The steps of the two -/

section Steps
variable {N : Nat} {s s' : System} {l : SysLabel} {client server : Endian}
  {content : Nat → Byte}

theorem advertised_congr (h : s'.client.ep.cb.mainFields = s.client.ep.cb.mainFields) :
    advertised server s' = advertised server s := by
  have hbuf : s'.client.ep.cb.sendBuf = s.client.ep.cb.sendBuf := congrArg MainFields.sendBuf h
  have hhost : s'.client.ep.cb.host = s.client.ep.cb.host := congrArg MainFields.host h
  rw [advertised, advertised, hbuf, hhost]

theorem Delivering.step (h : Delivering server N content s) (hj : Joint client server s)
    (hpc : FilledPage s.client.pc = true) (hok : Healthy s l)
    (hs : System.step N s l = some s') : Delivering server N content s' := by
  obtain ⟨-, hmf⟩ := filled_step hpc hs
  have hadv : advertised server s' = advertised server s := advertised_congr hmf
  have htold := noRequest_step hpc h.told hs
  have haddr : s'.client.ep.cb.startDmaAddr = s.client.ep.cb.startDmaAddr :=
    congrArg MainFields.startDmaAddr hmf
  suffices hserver : ServerDelivers N server (advertised server s) content s'.server by
    constructor
    · exact h.pattern
    · rw [hadv, haddr]
      exact h.addr
    · rw [hadv]
      exact h.len
    · exact htold
    · rw [hadv]
      exact hserver.page
    · rw [hadv]
      exact hserver.agree
    · rw [hadv]
      exact hserver.echo
    · rw [hadv]
      exact hserver.late
  rcases step_server hpc hs with heq | ⟨l', hpart, hstep⟩
  · rw [heq]
    exact ⟨h.page, h.agree, h.echo, h.late⟩
  have hreuse : ∀ mem, l' ≠ .reuse mem := by
    rintro mem rfl
    cases hpart
  cases hlate : LateServer s.server.pc with
  | false =>
      have hb : BeforeGoAhead N s := hj.beforeGoAhead hpc hlate
      have hhost : s.server.ep.cb.host = server := (h.echo hlate).sameHost
      exact h.before hb hlate (peerOnce_of_part hb hhost hok hpart) hreuse hstep
  | true =>
      have hbefore : ServerDelivers N server (advertised server s) content s.server :=
        ⟨h.page, h.agree, h.echo, h.late⟩
      refine hbefore.after hlate ?_ hreuse hstep
      rintro id ret rfl
      cases hpart with
      | cm event hmem => exact h.told _ hmem rfl
      | ep l hcm => exact hcm _ _ _ rfl

/-- Only its own statements move the client's main thread. -/
theorem clientPc_step (hs : System.step N s l = some s') :
    (∃ inp, l = .clientMain inp) ∨ s'.client.pc = s.client.pc := by
  cases l with
  | clientMain inp => exact .inl ⟨inp, rfl⟩
  | serverMain inp =>
      obtain ⟨_, _, _, _, _, _, rfl⟩ := step_serverMain hs
      exact .inr rfl
  | serverCm =>
      obtain ⟨_, _, _, _, _, rfl⟩ := step_serverCm hs
      exact .inr rfl
  | clientCm =>
      obtain ⟨_, _, _, _, rfl⟩ := step_clientCm hs
      exact .inr rfl
  | serverEp l =>
      obtain ⟨_, _, _, rfl⟩ := step_serverEp hs
      exact .inr rfl
  | clientEp l =>
      obtain ⟨_, _, _, rfl⟩ := step_clientEp hs
      exact .inr rfl
  | landAdvert =>
      obtain ⟨_, _, _, _, _, rfl⟩ := step_landAdvert hs
      exact .inr rfl
  | landGoAhead =>
      obtain ⟨_, _, _, _, _, rfl⟩ := step_landGoAhead hs
      exact .inr rfl
  | _ =>
      obtain ⟨_, _, rfl⟩ := Option.map_eq_some_iff.mp hs
      exact .inr rfl

/-- The statement that fills the page. -/
theorem Sending.fills {c : ClientConfig} {inp : MainIn} {cb : IbContext} {pc : ClientPc}
    {call : Call} (h : Sending c) (hpc : FilledPage c.pc = false)
    (hm : clientMain inp c.ep.cb c.pc = some (cb, pc, call)) (hpc' : FilledPage pc = true) :
    cb = formatSend c.ep.cb c.ep.cb.startDmaAddr ∧ pc = .testPost ∧
      call = .fill (startBufWrites c.ep.cb.size) := by
  have hst : c.pc = .connectTest → c.ep.cb.state ≠ error := by
    intro hpc₀
    cases h with
    | before _ hst => simp [hst]
    | prepared hpc₁ => simp [hpc₀] at hpc₁
  have hpcs : c.pc = .connectWait ∨ c.pc = .connectTest ∨ c.pc = .testSet ∨ c.pc = .testFill := by
    cases h with
    | before hpc₁ => exact hpc₁.elim .inl fun h => .inr (h.elim .inl fun h => .inr (.inl h))
    | prepared hpc₁ =>
        refine .inr (.inr (.inr (hpc₁.resolve_right fun h => ?_)))
        rw [h] at hpc
        cases hpc
  generalize c.pc = p at hm hst hpcs
  cases clientMain_move hm with
  | testFill => exact ⟨rfl, rfl, rfl⟩
  | connectBroken hbroken => exact absurd hbroken (hst rfl)
  | _ => first | (simp at hpcs; done) | cases hpc'

/-- The page as it is filled, and what is advertised of it. -/
theorem formatSend_delivers (server : Endian) {cb : IbContext} (hsize : cb.size = bufSize)
    (mem : BitVec 64 → Byte) :
    let a := (formatSend cb cb.startDmaAddr).sendBuf.carry cb.host server
    a.addr server = cb.startDmaAddr ∧ a.len server = bufSize ∧
      PingPattern bufSize fun j => (Call.fill (startBufWrites cb.size)).store cb.startDmaAddr mem
        (a.addr server + BitVec.ofNat 64 j) := by
  have haddr := carry_addr cb.host server cb.startDmaAddr (htonl cb.host cb.dmaMr.rkey)
    (BitVec.ofNat 32 cb.size)
  have hlen := carry_len cb.host server cb.startDmaAddr (htonl cb.host cb.dmaMr.rkey)
    (BitVec.ofNat 32 cb.size)
  refine ⟨haddr, hlen.trans (by rw [hsize]; rfl), ?_⟩
  refine (startBuf_pattern (by decide) fun k =>
    mem (cb.startDmaAddr + BitVec.ofNat 64 k)).congr (by decide) fun j hj => ?_
  rw [formatSend, haddr, hsize]
  exact Call.store_startBuf cb.startDmaAddr mem (by decide) (by decide) hj

/-- Before the client fills its page it has not sent anything. -/
theorem Joint.fills (hj : Joint client server s) (hpc : FilledPage s.client.pc = false)
    (hpc' : FilledPage s'.client.pc = true) (hok : Healthy s l)
    (hs : System.step N s l = some s') :
    ∃ content, Delivering server N content s' := by
  obtain ⟨inp, rfl⟩ := (clientPc_step hs).resolve_right fun heq => by simp [heq, hpc] at hpc'
  obtain ⟨cb, pc, call, ep, hm, he, rfl⟩ := step_clientMain hs
  have hblocked : ¬ Connecting s.client := by
    intro hconn
    rw [hconn.blocked hok.2] at hm
    cases hm
  cases hj with
  | opening hbase hidle hbind =>
      exfalso
      obtain ⟨-, -, ⟨hbind', -⟩ | ⟨hconn, -⟩⟩ := hbind.main hidle hok.1 hok.2 hm he
      · rw [show FilledPage pc = false from binding_notFilled hbind'] at hpc'
        cases hpc'
      · rw [show pc = .connectWait from hconn.pc] at hpc'
        cases hpc'
  | requested hbase hidle hc => exact absurd hc hblocked
  | setting hbase hidle hc => exact absurd hc hblocked
  | accepted hbase hidle hc => exact absurd hc hblocked
  | sent hadv =>
      rw [hadv.waiting.pc] at hpc
      cases hpc
  | serving hwait =>
      rw [hwait.pc] at hpc
      cases hpc
  | late h =>
      rw [FilledPage, h.client, Bool.or_true] at hpc
      cases hpc
  | sending hbase hidle hsend hpage hcalm hacc hev =>
      obtain ⟨rfl, rfl, rfl⟩ := hsend.fills hpc hm hpc'
      have hsize : s.client.ep.cb.size = bufSize := hbase.size
      have hcb := Endpoint.call_cb he
      obtain ⟨haddr, hlen, hpattern⟩ :=
        formatSend_delivers server hsize s.server.remoteMem
      have hadv : ∀ t : System, t.client.ep = ep → advertised server t =
          (formatSend s.client.ep.cb s.client.ep.cb.startDmaAddr).sendBuf.carry
            s.client.ep.cb.host server := by
        intro t ht
        rw [advertised, ht, hcb]
        rfl
      have hearly : LateServer s.server.pc = false := by rw [hacc.pc]; rfl
      have hcalm' := hcalm.restart hacc (hlen ▸ hcalm.room)
        ((Call.fill (startBufWrites s.client.ep.cb.size)).store s.client.ep.cb.startDmaAddr
          s.server.remoteMem)
      refine ⟨_, hpattern, ?_, ?_, ?_, ?_, ?_, ?_, ?_⟩
      · rw [hadv _ rfl]
        exact haddr.trans (by rw [hcb]; rfl)
      · rw [hadv _ rfl]
        exact hlen
      · intro event hmem
        rw [show s.toServer ++ Call.toPeer (.fill _) = s.toServer from List.append_nil _] at hmem
        rw [hev event hmem]
        exact nofun
      · rw [hadv _ rfl]
        exact fun _ _ => rfl
      · intro hfirst
        rw [show FirstRead N s.server.pc = false by rw [hacc.pc]; rfl] at hfirst
        cases hfirst
      · intro _
        rw [hadv _ rfl]
        exact hcalm'.echo
      · intro hlate
        rw [hearly] at hlate
        cases hlate

end Steps

/-! ## When the client's test is over -/

/-- The opcodes on the send queue. -/
def queued (c : ServerConfig) : List WrOpcode := c.ep.sq.map (·.wr.opcode)

/-- No RDMA operation of the server can move a byte any more. -/
def NoTransfer (c : ServerConfig) : Prop :=
  c.ep.qpErr = true ∨ ∀ op ∈ queued c, op = .send

/-- The client is told to go on, or has gone on. -/
inductive Signalled (s : System) : Prop
  | wire (h : s.goAhead ≠ .still)
  | completed (wc : Wc) (hmem : wc ∈ s.client.ep.cq.queue) (hst : wc.status = .success)
      (hop : wc.opcode = .recv)
  | event (h : .disconnected ∈ s.toClient)
  | state (h : rdmaWriteAdv ≤ s.client.ep.cb.state)
  | tested (h : TestOver s.client.pc = true)

/-- A completion the client can get. -/
def Expected (wc : Wc) : Prop :=
  wc.status = .wrFlushErr ∨ (wc.status = .success ∧ (wc.opcode = .send ∨ wc.opcode = .recv))

/-- The go-ahead is posted, behind everything else. -/
structure Ended (s : System) : Prop where
  quiet : Signalled s → NoTransfer s.server
  last : (queued s.server).Pairwise fun op op' => op = .send → op' = .send
  queue : ∀ wc ∈ s.client.ep.cq.queue, Expected wc

section Ended
variable {N : Nat} {s s' : System} {l : SysLabel} {client server : Endian}
  {content : Nat → Byte}

theorem serverMain_late_call {len : Option Nat} {inp : MainIn} {cb cb' : IbContext}
    {pc pc' : ServerPc} {call : Call} (hm : serverMain N len inp cb pc = some (cb', pc', call))
    (hlate : LateServer pc = true) : (∀ wr sge, call ≠ .postSend wr sge) ∧
      (.disconnected ∈ call.toPeer → pc = .disconnect) := by
  cases serverMain_move hm <;> simp_all [LateServer, Call.toPeer]

/-- After the go-ahead the send queue only gets shorter. -/
theorem queued_late {c c' : ServerConfig} {l : ServerLabel} (hlate : LateServer c.pc = true)
    (hs : c.step N l = some c') :
    (queued c').Sublist (queued c) ∧ (c.ep.qpErr = true → c'.ep.qpErr = true) := by
  cases l with
  | main inp =>
      obtain ⟨cb, call, hm, hep, -, -⟩ := step_main_call hs
      refine ⟨?_, fun herr => call_qpErr hep herr⟩
      rcases (Endpoint.call_sq (serverMain_late_call hm hlate).1 hep).1 with heq | heq <;>
        rw [queued, heq]
      · exact List.Sublist.refl _
      · exact List.nil_sublist _
  | move =>
      obtain ⟨p, rest, hsq, -, -, hep, -⟩ := step_move hs
      rw [queued, queued, hep, hsq]
      exact ⟨List.Sublist.refl _, id⟩
  | ep l =>
      obtain ⟨-, ep, he, rfl⟩ := step_ep hs
      refine ⟨?_, (Endpoint.step_sq he).1⟩
      rcases (Endpoint.step_sq he).2 with heq | ⟨p, rest, hsq, hsq', -⟩
      · rw [queued, queued, heq]
      · rw [queued, queued, hsq', hsq]
        exact List.sublist_cons_self _ _
  | reuse mem =>
      obtain ⟨-, rfl⟩ := step_reuse hs
      exact ⟨List.Sublist.refl _, id⟩

theorem NoTransfer.late {c c' : ServerConfig} {l : ServerLabel} (h : NoTransfer c)
    (hlate : LateServer c.pc = true) (hs : c.step N l = some c') : NoTransfer c' := by
  obtain ⟨hsub, herr⟩ := queued_late hlate hs
  exact h.imp herr fun hsends op hop => hsends op (hsub.subset hop)

/-- What `Ended` says of the server survives its steps. -/
theorem Ended.atServer (h : Ended s) (hlate : LateServer s.server.pc = true)
    (hpc : FilledPage s.client.pc = true) (hs : System.step N s l = some s') :
    (NoTransfer s.server → NoTransfer s'.server) ∧
      (queued s'.server).Pairwise fun op op' => op = .send → op' = .send := by
  rcases step_server hpc hs with heq | ⟨l', -, hstep⟩
  · rw [heq]
    exact ⟨id, h.last⟩
  · exact ⟨fun hno => hno.late hlate hstep, h.last.sublist (queued_late hlate hstep).1⟩

/-- The completions the client's end adds to its queue. -/
theorem expected_step {e e' : Endpoint} {l : EpLabel} (hok : l.healthy)
    (hland : ∀ buf byteLen status, l ≠ .land buf byteLen status)
    (hsends : ∀ p ∈ e.sq, p.wr.opcode = .send) (hq : ∀ wc ∈ e.cq.queue, Expected wc)
    (hs : e.step clientHook l = some e') :
    (∀ wc ∈ e'.cq.queue, Expected wc) ∧
      ∀ wc ∈ e'.cq.queue, wc.status = .success → wc.opcode = .recv → wc ∈ e.cq.queue := by
  have hadd : ∀ w, Expected w → (w.status = .success → w.opcode ≠ .recv) →
      (∀ wc ∈ (e.cq.add w).queue, Expected wc) ∧
        ∀ wc ∈ (e.cq.add w).queue, wc.status = .success → wc.opcode = .recv →
          wc ∈ e.cq.queue := by
    intro w hw hne
    simp only [Cq.add_queue, List.mem_append, List.mem_singleton]
    constructor
    · rintro wc (hwc | rfl)
      · exact hq wc hwc
      · exact hw
    · rintro wc (hwc | rfl) hst hop
      · exact hwc
      · exact absurd hop (hne hst)
  cases l with
  | cm event id ret =>
      simp only [Endpoint.step, Option.some.injEq] at hs
      subst hs
      exact ⟨hq, fun wc hwc _ _ => hwc⟩
  | land buf byteLen status => exact absurd rfl (hland buf byteLen status)
  | cqPollErr => exact hok.elim
  | fail => exact hok.elim
  | cqEnter =>
      obtain ⟨-, -, rfl⟩ := Endpoint.step_cqEnter hs
      exact ⟨hq, fun wc hwc _ _ => hwc⟩
  | cqPoll ret =>
      obtain ⟨-, ⟨-, rfl⟩ | ⟨wc, rest, hhead, rfl⟩⟩ := Endpoint.step_poll hs
      · exact ⟨hq, fun wc hwc _ _ => hwc⟩
      · rw [hhead] at hq ⊢
        exact ⟨fun w hw => hq w (List.mem_cons_of_mem wc hw),
          fun w hw _ _ => List.mem_cons_of_mem wc hw⟩
  | complete =>
      obtain ⟨p, rest, hp, -, -, rfl⟩ := Endpoint.step_complete hs
      have hop := hsends p (by simp [hp])
      have hne : p.wr.opcode.wc ≠ .recv := by
        rw [hop]
        decide
      exact hadd _ (.inr ⟨rfl, .inl (by rw [hop]; rfl)⟩) fun _ => hne
  | flush =>
      obtain ⟨p, rest, -, -, rfl⟩ := Endpoint.step_flush hs
      exact hadd _ (.inl rfl) (by simp)
  | flushRecv =>
      obtain ⟨-, -, rfl⟩ := Endpoint.step_flushRecv hs
      exact hadd _ (.inl rfl) (by simp)
  | breakQp =>
      simp only [Endpoint.step, Option.some.injEq] at hs
      subst hs
      exact ⟨hq, fun wc hwc _ _ => hwc⟩

/-- Only a message of the server ends the client's wait. -/
theorem drainOne_expected {cb : IbContext} {wc : Wc} {ret : Int} (h : Expected wc)
    (hst : rdmaWriteAdv ≤ (drainOne clientHook cb wc ret).cb.state) :
    rdmaWriteAdv ≤ cb.state ∨ (wc.status = .success ∧ wc.opcode = .recv) := by
  rcases h with hflush | ⟨hsuccess, hop | hop⟩
  · rw [drainOne, hflush] at hst
    exact .inl hst
  · simp only [drainOne, hsuccess, hop] at hst
    exact .inl hst
  · exact .inr ⟨hsuccess, hop⟩

/-- The state of the client's end changes with a message of the server. -/
theorem expected_state {e e' : Endpoint} {l : EpLabel} (hok : l.healthy)
    (hcm : ∀ event id ret, l ≠ .cm event id ret) (hq : ∀ wc ∈ e.cq.queue, Expected wc)
    (hs : e.step clientHook l = some e') (hst : rdmaWriteAdv ≤ e'.cb.state) :
    rdmaWriteAdv ≤ e.cb.state ∨
      ∃ wc ∈ e.cq.queue, wc.status = .success ∧ wc.opcode = .recv := by
  by_cases hp : ∃ ret, l = .cqPoll ret
  · obtain ⟨ret, rfl⟩ := hp
    obtain ⟨-, ⟨-, rfl⟩ | ⟨wc, rest, hhead, rfl⟩⟩ := Endpoint.step_poll hs
    · exact .inl hst
    · have hmem : wc ∈ e.cq.queue := by simp [hhead]
      exact (drainOne_expected (hq wc hmem) hst).imp_right fun h => ⟨wc, hmem, h⟩
  · push Not at hp
    have herr : l ≠ .cqPollErr := by
      rintro rfl
      exact hok
    obtain ⟨⟨buf, hcb⟩, -⟩ := Endpoint.step_cb hs hcm hp herr
    rw [hcb] at hst
    exact .inl hst

/-- A statement behind the advertisement. -/
theorem clientMain_over {inp : MainIn} {cb cb' : IbContext} {pc pc' : ClientPc} {call : Call}
    (hm : clientMain inp cb pc = some (cb', pc', call)) (hlate : LateClient pc = true)
    (hsig : inp.signal = false) : cb'.state = cb.state ∧
      (TestOver pc' = true → TestOver pc = true ∨ rdmaWriteAdv ≤ cb.state) := by
  cases clientMain_move hm <;> simp_all [LateClient, TestOver]

/-- What the client can see is what it saw. -/
theorem Signalled.same (h : Signalled s') (hwire : s'.goAhead ≠ .still → s.goAhead ≠ .still)
    (hcompleted : ∀ wc ∈ s'.client.ep.cq.queue, wc.status = .success → wc.opcode = .recv →
      wc ∈ s.client.ep.cq.queue)
    (hevent : .disconnected ∈ s'.toClient → .disconnected ∈ s.toClient)
    (hstate : s'.client.ep.cb.state = s.client.ep.cb.state)
    (hpc : s'.client.pc = s.client.pc) : Signalled s := by
  cases h with
  | wire h => exact .wire (hwire h)
  | completed wc hmem hst hop => exact .completed wc (hcompleted wc hmem hst hop) hst hop
  | event h => exact .event (hevent h)
  | state h => exact .state (hstate ▸ h)
  | tested h => exact .tested (hpc ▸ h)

/-- The go-ahead stands last, so nothing else is on the send queue when it
goes on the wire. -/
theorem Ended.transmits (h : Ended s) {wire : Wire}
    (hw : s.server.ep.transmit s.goAhead = some wire) : NoTransfer s.server := by
  obtain ⟨p, rest, -, hsq, -, hop, -⟩ := Endpoint.transmit_eq_some hw
  refine .inr fun op hmem => ?_
  have hlast := h.last
  rw [queued, hsq, List.map_cons] at hlast hmem
  rcases List.mem_cons.mp hmem with rfl | hmem
  · exact hop
  · exact (List.pairwise_cons.mp hlast).1 op hmem hop

/-- The disconnect stops everything. -/
theorem Delivering.disconnects (hd : Delivering server N content s) {inp : MainIn}
    {c : ServerConfig} (hpc : s.server.pc = .disconnect)
    (hs : s.server.step N (.main inp) = some c) : NoTransfer c := by
  rw [main_disconnect hpc, Option.some.injEq] at hs
  subst hs
  rcases hd.late (by rw [hpc]; rfl) with herr | ⟨-, hid, -⟩
  · exact .inl (by simp [herr])
  · exact .inl (by simp [hid])

/-- Whatever signals the client after a step did so before, or nothing
moves any more. -/
theorem Ended.signalled (h : Ended s) (hlate : Late s) (hd : Delivering server N content s)
    (hok : Healthy s l) (hs : System.step N s l = some s') (hsig : Signalled s') :
    Signalled s ∨ NoTransfer s'.server := by
  cases l with
  | serverMain inp =>
      obtain ⟨cb, pc, call, c, hm, hstep, rfl⟩ := step_serverMain hs
      by_cases hdis : CmEvent.disconnected ∈ call.toPeer
      · exact .inr (hd.disconnects ((serverMain_late_call hm hlate.server).2 hdis) hstep)
      · exact .inl (hsig.same id (fun _ hwc _ _ => hwc)
          (fun hmem => (List.mem_append.mp hmem).resolve_right hdis) rfl rfl)
  | clientMain inp =>
      obtain ⟨cb, pc, call, ep, hm, he, rfl⟩ := step_clientMain hs
      obtain ⟨-, -, hself, hpost⟩ := clientMain_late hm hlate.client
      obtain ⟨hstate, hover⟩ := clientMain_over hm hlate.client hok.2
      have hcb : ep.cb = cb := Endpoint.call_cb he
      refine .inl ?_
      cases hsig with
      | wire hwire => exact .wire hwire
      | completed wc hmem hst hop =>
          rcases (Endpoint.call_sq hpost he).2 with heq | heq
          · exact .completed wc (heq ▸ hmem) hst hop
          · rw [heq] at hmem
            cases hmem
      | event hmem =>
          rw [hself, List.append_nil] at hmem
          exact .event hmem
      | state hst =>
          rw [hcb, hstate] at hst
          exact .state hst
      | tested hpc => exact (hover hpc).elim .tested .state
  | serverCm =>
      obtain ⟨event, rest, c, -, -, rfl⟩ := step_serverCm hs
      exact .inl (hsig.same id (fun _ hwc _ _ => hwc) id rfl rfl)
  | clientCm =>
      -- the event that comes in is the server's disconnect
      obtain ⟨event, rest, hhead, -, rfl⟩ := step_clientCm hs
      obtain rfl := hlate.events event (by simp [hhead])
      exact .inl (.event (by simp [hhead]))
  | serverEp l =>
      obtain ⟨-, c, -, rfl⟩ := step_serverEp hs
      refine .inl (hsig.same (fun hne hstill => hne ?_) (fun _ hwc _ _ => hwc) id rfl rfl)
      cases l <;> simp [Endpoint.wireAfter, hstill]
  | clientEp l =>
      obtain ⟨hmay, ep, he, rfl⟩ := step_clientEp hs
      obtain ⟨hcm, hland⟩ := mayMove_moves hmay
      have hnew := (expected_step hok hland hlate.sends h.queue he).2
      refine .inl ?_
      cases hsig with
      | wire hwire => exact .wire hwire
      | completed wc hmem hst hop => exact .completed wc (hnew wc hmem hst hop) hst hop
      | event hmem => exact .event hmem
      | tested hpc => exact .tested hpc
      | state hst =>
          rcases expected_state hok hcm h.queue he hst with hst | ⟨wc, hmem, hst, hop⟩
          · exact .state hst
          · exact .completed wc hmem hst hop
  | serverMove =>
      obtain ⟨c, -, rfl⟩ := Option.map_eq_some_iff.mp hs
      exact .inl (hsig.same id (fun _ hwc _ _ => hwc) id rfl rfl)
  | clientMove =>
      obtain ⟨ep, he, rfl⟩ := Option.map_eq_some_iff.mp hs
      obtain ⟨p, rest, -, -, -, -, rfl⟩ := Endpoint.sendByte_eq_some he
      exact .inl (hsig.same id (fun _ hwc _ _ => hwc) id rfl rfl)
  | transmitAdvert =>
      obtain ⟨wire, -, rfl⟩ := Option.map_eq_some_iff.mp hs
      exact .inl (hsig.same id (fun _ hwc _ _ => hwc) id rfl rfl)
  | transmitGoAhead =>
      obtain ⟨wire, hw, rfl⟩ := Option.map_eq_some_iff.mp hs
      exact .inr (h.transmits hw)
  | landAdvert =>
      obtain ⟨msg, len, c, -, -, rfl⟩ := step_landAdvert hs
      exact .inl (hsig.same id (fun _ hwc _ _ => hwc) id rfl rfl)
  | landGoAhead =>
      obtain ⟨msg, len, ep, hflying, -, rfl⟩ := step_landGoAhead hs
      exact .inl (.wire (by simp [hflying]))

theorem Ended.step (h : Ended s) (hlate : Late s) (hd : Delivering server N content s)
    (hok : Healthy s l) (hs : System.step N s l = some s') : Ended s' := by
  have hfilled : FilledPage s.client.pc = true := by rw [FilledPage, hlate.client, Bool.or_true]
  obtain ⟨hno, hlast⟩ := h.atServer hlate.server hfilled hs
  refine ⟨fun hsig => ?_, hlast, ?_⟩
  · exact (h.signalled hlate hd hok hs hsig).elim (fun hold => hno (h.quiet hold)) id
  · cases l with
    | clientMain inp =>
        obtain ⟨cb, pc, call, ep, hm, he, rfl⟩ := step_clientMain hs
        obtain ⟨-, -, -, hpost⟩ := clientMain_late hm hlate.client
        intro wc (hmem : wc ∈ ep.cq.queue)
        rcases (Endpoint.call_sq hpost he).2 with heq | heq <;> rw [heq] at hmem
        · exact h.queue wc hmem
        · cases hmem
    | clientEp l =>
        obtain ⟨hmay, ep, he, rfl⟩ := step_clientEp hs
        exact (expected_step hok (mayMove_moves hmay).2 hlate.sends h.queue he).1
    | landGoAhead =>
        obtain ⟨msg, len, ep, -, he, rfl⟩ := step_landGoAhead hs
        obtain ⟨-, -, rfl⟩ := Endpoint.step_land he
        intro wc hmem
        rcases List.mem_append.mp hmem with hmem | hmem
        · exact h.queue wc hmem
        · rw [List.mem_singleton.mp hmem]
          exact .inr ⟨rfl, .inr rfl⟩
    | serverMain inp =>
        obtain ⟨cb, pc, call, c, -, -, rfl⟩ := step_serverMain hs
        exact h.queue
    | serverCm =>
        obtain ⟨event, rest, c, -, -, rfl⟩ := step_serverCm hs
        exact h.queue
    | clientCm =>
        obtain ⟨event, rest, -, -, rfl⟩ := step_clientCm hs
        exact h.queue
    | serverEp l =>
        obtain ⟨-, c, -, rfl⟩ := step_serverEp hs
        exact h.queue
    | clientMove =>
        obtain ⟨ep, he, rfl⟩ := Option.map_eq_some_iff.mp hs
        obtain ⟨p, rest, -, -, -, -, rfl⟩ := Endpoint.sendByte_eq_some he
        exact h.queue
    | landAdvert =>
        obtain ⟨msg, len, c, -, -, rfl⟩ := step_landAdvert hs
        exact h.queue
    | _ =>
        obtain ⟨x, -, rfl⟩ := Option.map_eq_some_iff.mp hs
        exact h.queue

/-- The server leaves its loop from the serving phase only. -/
theorem Joint.leaves {inp : MainIn} {c : ServerConfig} (hj : Joint client server s)
    (hearly : LateServer s.server.pc = false) (hlate : LateServer c.pc = true)
    (hret : inp.ret = 0) (hsig : inp.signal = false)
    (hs : s.server.step N (.main inp) = some c) :
    Waiting s.client ∧ s.toClient = [] ∧ s.goAhead = .still ∧ c.pc = .disconnect ∧
      ∃ a content, Served server a content s.server := by
  obtain ⟨cb, call, hm, -⟩ := step_main_call hs
  have hopening : ¬ Opening s.server := by
    intro hopen
    rcases (hopen.main hret hsig hm hs).1.pc with hpc | hpc | hpc <;> rw [hpc] at hlate <;>
      cases hlate
  have hblocked : ¬ Accepted s.server := by
    intro hacc
    rw [hacc.blocked hsig] at hm
    cases hm
  cases hj with
  | opening hbase hidle hbind hcalm hopen => exact absurd hopen hopening
  | requested hbase hidle hconn hcalm hopen => exact absurd hopen hopening
  | setting hbase hidle hconn hcalm hset =>
      exfalso
      obtain ⟨-, ⟨hset', -⟩ | ⟨hacc, -⟩⟩ := hset.main hret hm hs
      · rcases hset'.pc with hpc | hpc | hpc | hpc | hpc | hpc <;> rw [hpc] at hlate <;>
          cases hlate
      · rw [hacc.pc] at hlate
        cases hlate
  | accepted hbase hidle hconn hcalm hacc => exact absurd hacc hblocked
  | sending hbase hidle hsend hpage hcalm hacc => exact absurd hacc hblocked
  | sent hadv ha hhost hcalm hnul hacc => exact absurd hacc hblocked
  | serving hwait hserved hev hev' hadvert hwire =>
      refine ⟨hwait, hev', hwire, ?_, _, _, hserved⟩
      rcases (hserved.main hret hsig hm hs).2 with hserved' | hdis
      · rw [served_notLate hserved'] at hlate
        cases hlate
      · exact hdis
  | late h =>
      rw [h.server] at hearly
      cases hearly

/-- Only its own statements move the server's main thread. -/
theorem serverPc_step (hs : System.step N s l = some s') :
    (∃ inp, l = .serverMain inp) ∨ s'.server.pc = s.server.pc := by
  cases l with
  | serverMain inp => exact .inl ⟨inp, rfl⟩
  | clientMain inp =>
      obtain ⟨_, _, _, _, _, _, rfl⟩ := step_clientMain hs
      exact .inr rfl
  | serverCm =>
      obtain ⟨_, _, _, _, hstep, rfl⟩ := step_serverCm hs
      exact .inr (server_pc hstep nofun)
  | clientCm =>
      obtain ⟨_, _, _, _, rfl⟩ := step_clientCm hs
      exact .inr rfl
  | serverEp l =>
      obtain ⟨_, _, hstep, rfl⟩ := step_serverEp hs
      exact .inr (server_pc hstep nofun)
  | clientEp l =>
      obtain ⟨_, _, _, rfl⟩ := step_clientEp hs
      exact .inr rfl
  | landAdvert =>
      obtain ⟨_, _, _, _, hstep, rfl⟩ := step_landAdvert hs
      exact .inr (server_pc hstep nofun)
  | landGoAhead =>
      obtain ⟨_, _, _, _, _, rfl⟩ := step_landGoAhead hs
      exact .inr rfl
  | serverMove =>
      obtain ⟨_, hstep, rfl⟩ := Option.map_eq_some_iff.mp hs
      exact .inr (server_pc hstep nofun)
  | _ =>
      obtain ⟨_, _, rfl⟩ := Option.map_eq_some_iff.mp hs
      exact .inr rfl

/-- The go-ahead goes behind the RDMA operations that are still out. -/
theorem Served.postsLast {a : RdmaInfo} {inp : MainIn} {c : ServerConfig}
    (h : Served server a content s.server) (hret : inp.ret = 0)
    (hs : s.server.step N (.main inp) = some c) (hpc : c.pc = .disconnect) :
    (queued c).Pairwise fun op op' => op = .send → op' = .send := by
  obtain ⟨cb, call, hm, -⟩ := step_main_call hs
  have hgo : s.server.pc = .goAhead := by
    rw [hpc] at hm
    generalize s.server.pc = pc at hm
    cases serverMain_move hm
    rfl
  have hsq : ∀ p ∈ s.server.ep.sq, p.wr.opcode ≠ .send := by
    rcases h.stage with hl | hg
    · simp [hl.sq]
    · exact hg.sq
  have hop : s.server.ep.cb.sqWr.opcode = .send := h.echo.sqWr
  rw [main_goAhead hgo, hret, Option.some.injEq] at hs
  subst hs
  simp only [queued, Endpoint.postSend, if_true, List.map_append, List.map_cons, List.map_nil, hop]
  refine List.pairwise_append.mpr ⟨?_, List.pairwise_singleton _ _, fun op _ op' hop' _ => ?_⟩
  · refine List.pairwise_map.mpr (List.pairwise_of_forall_mem_list ?_)
    exact fun p hp q _ hsend => absurd hsend (hsq p hp)
  · exact List.mem_singleton.mp hop'

/-- The go-ahead is posted. -/
theorem Joint.ends (hj : Joint client server s) (hearly : LateServer s.server.pc = false)
    (hlate : LateServer s'.server.pc = true) (hok : Healthy s l)
    (hs : System.step N s l = some s') : Ended s' := by
  obtain ⟨inp, rfl⟩ := (serverPc_step hs).resolve_right fun heq => by
    simp [heq, hearly] at hlate
  obtain ⟨cb, pc, call, c, hm, hstep, rfl⟩ := step_serverMain hs
  obtain ⟨hwait, hevent, hwire, hpc, a, content, hserved⟩ :=
    hj.leaves hearly hlate hok.1 hok.2 hstep
  have hpeer := (hserved.main hok.1 hok.2 hm hstep).1
  refine ⟨fun hsig => ?_, hserved.postsLast hok.1 hstep hpc, ?_⟩
  · -- nothing of it has reached the client
    exfalso
    cases hsig with
    | wire h => exact h hwire
    | completed wc hmem hst hop =>
        rw [(hwait.queue wc hmem).2] at hop
        cases hop
    | event h => simp [hpeer, hevent] at h
    | state h => simp [hwait.state] at h
    | tested h => simp [hwait.pc, TestOver] at h
  · exact fun wc hmem => .inr ⟨(hwait.queue wc hmem).1, .inl (hwait.queue wc hmem).2⟩

/-! ## Runs -/

/-- The joint invariant with what it leaves out: the bytes of the page, and
the end of the transfers. -/
structure PageInv (client server : Endian) (N : Nat) (s : System) : Prop where
  joint : Joint client server s
  delivering : FilledPage s.client.pc = true → ∃ content, Delivering server N content s
  ended : LateServer s.server.pc = true → Ended s

theorem PageInv.step (h : PageInv client server N s) (hok : Healthy s l)
    (hs : System.step N s l = some s') : PageInv client server N s' := by
  refine ⟨h.joint.step hok hs, fun hpc' => ?_, fun hlate' => ?_⟩
  · cases hpc : FilledPage s.client.pc with
    | false => exact h.joint.fills hpc hpc' hok hs
    | true =>
        obtain ⟨content, hd⟩ := h.delivering hpc
        exact ⟨content, hd.step h.joint hpc hok hs⟩
  · cases hlate : LateServer s.server.pc with
    | false => exact h.joint.ends hlate hlate' hok hs
    | true =>
        have hl := h.joint.late_of_server hlate
        obtain ⟨content, hd⟩ := h.delivering (by rw [FilledPage, hl.client, Bool.or_true])
        exact (h.ended hlate).step hl hd hok hs

end Ended

/-- **The page arrives and comes back whole.** In every reachable
configuration: once the client has filled its page, the page holds the
pattern; once the server's first RDMA READ is over, `rdma_buf` holds the
same bytes until it is freed; and once the client's test is over, so
before the page is unmapped and freed, no RDMA operation of the server
can move a byte any more. -/
theorem page_delivered {N : Nat} {client server : Endian} {mem : List Byte}
    {remote : BitVec 64 → Byte} {s : System} (hmem : bufSize ≤ mem.length)
    (h : Runs.Reach (step N) Healthy (init client server mem remote) s) :
    (FilledPage s.client.pc = true → PingPattern bufSize fun j =>
      s.server.remoteMem (s.client.ep.cb.startDmaAddr + BitVec.ofNat 64 j)) ∧
    (FirstRead N s.server.pc = true → ∀ j < bufSize, s.server.rdmaMem[j]? =
      some (s.server.remoteMem (s.client.ep.cb.startDmaAddr + BitVec.ofNat 64 j))) ∧
    (TestOver s.client.pc = true → s.server.ep.qpErr = true ∨
      ∀ p ∈ s.server.ep.sq, p.wr.opcode = .send) := by
  have hinv : PageInv client server N s :=
    h.invariant ⟨init_joint hmem, nofun, nofun⟩ fun _ _ _ ha hok hs => ha.step hok hs
  have hholds : ∀ content, Delivering server N content s → ∀ j < bufSize,
      s.server.remoteMem (s.client.ep.cb.startDmaAddr + BitVec.ofNat 64 j) = content j := by
    intro content hd j hj
    rw [← hd.addr]
    exact hd.page j (by rw [hd.len]; exact hj)
  refine ⟨fun hpc => ?_, fun hfirst => ?_, fun hover => ?_⟩
  · obtain ⟨content, hd⟩ := hinv.delivering hpc
    exact hd.pattern.congr (by decide) (hholds content hd)
  · have hpc : FilledPage s.client.pc = true := by
      rcases hinv.joint.loop_or_early N with ⟨hwait, -⟩ | hl | ⟨-, -, hno⟩
      · rw [hwait.pc]
        rfl
      · rw [FilledPage, hl.client, Bool.or_true]
      · simp [hno] at hfirst
    obtain ⟨content, hd⟩ := hinv.delivering hpc
    intro j hj
    rw [hholds content hd j hj]
    exact hd.agree hfirst j (by rw [hd.len]; exact hj)
  · have hlate : LateServer s.server.pc = true := by
      rcases hinv.joint.loop_or_early N with ⟨hwait, -⟩ | hl | ⟨hno, -⟩
      · rw [hwait.pc] at hover
        cases hover
      · exact hl.server
      · simp [hno] at hover
    refine ((hinv.ended hlate).quiet (.tested hover)).imp_right fun hsends p hp => ?_
    exact hsends _ (List.mem_map_of_mem hp)

/-- Both runs to the end of the client's test, with one iteration. -/
def oneRound : List SysLabel :=
  let runs : List (SysLabel × Nat) := [(.clientMain .ok, 1), (.clientCm, 2), (.clientMain .ok, 6),
    (.serverMain .ok, 2), (.serverCm, 1), (.serverMain .ok, 6), (.clientCm, 1),
    (.clientMain .ok, 5), (.clientMove, 16), (.transmitAdvert, 1), (.landAdvert, 1),
    (.serverEp .cqEnter, 1), (.serverEp (.cqPoll 0), 1), (.serverMain .ok, 5),
    (.serverMove, 64), (.serverEp .complete, 1), (.serverEp (.cqPoll 0), 1),
    (.serverMain .ok, 3), (.serverMove, 64), (.serverEp .complete, 1),
    (.serverEp (.cqPoll 0), 1), (.serverMain .ok, 3), (.clientCm, 1), (.clientMain .ok, 1)]
  runs.flatMap fun run => List.replicate run.2 run.1

theorem page_delivered_oneRound : ∃ s,
    Runs.Reach (step 1) Healthy (init .little .big (List.replicate 64 0) fun _ => 0) s ∧
      s.server.pc = .freeBuffers ∧ s.client.pc = .disconnect ∧
      s.server.rdmaMem[13]? = some 65 ∧
      (s.server.ep.qpErr = true ∨ ∀ p ∈ s.server.ep.sq, p.wr.opcode = .send) := by
  have hexec : (Runs.exec (step 1) Healthy
      (init .little .big (List.replicate 64 0) fun _ => 0) oneRound).any (fun s =>
        s.server.pc == .freeBuffers && s.client.pc == .disconnect) = true := by
    decide +kernel
  cases hs : Runs.exec (step 1) Healthy
      (init .little .big (List.replicate 64 0) fun _ => 0) oneRound with
  | none =>
      rw [hs] at hexec
      cases hexec
  | some s =>
      rw [hs, Option.any_some, Bool.and_eq_true, beq_iff_eq, beq_iff_eq] at hexec
      obtain ⟨hserver, hclient⟩ := hexec
      have hreach := Runs.reach_of_exec hs
      obtain ⟨hpage, hbuf, hquiet⟩ := page_delivered (by decide) hreach
      refine ⟨s, hreach, hserver, hclient, ?_, hquiet (by rw [hclient]; rfl)⟩
      -- the first letter behind the text
      have hletter := (hpage (by rw [hclient]; rfl)).letters 13 (by decide) (by decide)
      rw [hbuf (by rw [hserver]; rfl) 13 (by decide), hletter]
      rfl

end System

end MegaVM
