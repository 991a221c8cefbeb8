import MegaVM.Server.Isolation
import MegaVM.Server.Transfer

/-!
# The echo leaves the client's page alone

A client that advertises one buffer once and does not write to it. The
waits of later iterations may be over before their operations are, so
READs and WRITEs overlap; the bytes do not suffer, because the first
iteration is serialised and from then on both buffers agree:

* `Early` — no advertisement has been waited for, nothing is posted;
* `Ready` — the advertisement is decoded, no RDMA operation is posted;
* `Reading` — the first READ is out, and the main thread waits for it;
* `Filled` — the buffers agree, and every operation that is out copies
  bytes of one to the same place in the other.

Once the queue pair is in the error state no byte moves any more, so
`EchoInv` asks for a phase only until then.
-/

namespace MegaVM

open TestState

namespace ServerConfig

/-! ## The environment -/

/-- A peer that sends the advertisement `a` once, on a connection that
stays up until the queue pair is in the error state. -/
def PeerOnceEp (a : RdmaInfo) (e : Endpoint) : EpLabel → Prop
  | .cm event _ _ =>
      (event.isError = true → e.qpErr = true) ∧ (event = .connectRequest → e.requests = [])
  | .cqPoll ret => ret = 0 ∨ e.qpErr = true
  | .cqPollErr => e.qpErr = true
  | .land buf byteLen status =>
      buf = a ∧ byteLen = sizeofRdmaInfo ∧ status = .success ∧ e.received = false
  | .cqEnter | .complete | .fail | .flush | .flushRecv | .breakQp => True

instance (a : RdmaInfo) (e : Endpoint) : (l : EpLabel) → Decidable (PeerOnceEp a e l)
  | .cm event _ _ => inferInstanceAs (Decidable ((event.isError = true → _) ∧ (_ → _)))
  | .cqPoll ret => inferInstanceAs (Decidable (ret = 0 ∨ _))
  | .cqPollErr => inferInstanceAs (Decidable (e.qpErr = true))
  | .land _ _ _ => inferInstanceAs (Decidable (_ ∧ _ ∧ _ ∧ _))
  | .cqEnter | .complete | .fail | .flush | .flushRecv | .breakQp => .isTrue trivial

/-- The same for the whole server: calls succeed and no signal arrives. -/
def PeerOnce (a : RdmaInfo) (c : ServerConfig) : ServerLabel → Prop
  | .main inp => inp.ret = 0 ∧ inp.signal = false
  | .ep l => PeerOnceEp a c.ep l
  | .move | .reuse _ => True

instance (a : RdmaInfo) (c : ServerConfig) : (l : ServerLabel) → Decidable (PeerOnce a c l)
  | .main inp => inferInstanceAs (Decidable (inp.ret = 0 ∧ _))
  | .ep l => inferInstanceAs (Decidable (PeerOnceEp a c.ep l))
  | .move | .reuse _ => .isTrue trivial

/-! ## What the endpoint does under such a peer -/

/-- A step that neither polls nor completes anything. -/
structure QuietStep (e e' : Endpoint) : Prop where
  queue : e'.cq.queue = e.cq.queue
  sq : e'.sq = e.sq
  qpErr : e'.qpErr = e.qpErr
  seen : ∀ p, e'.seen p = e.seen p
  buf : e'.cb.recvBuf = e.cb.recvBuf
  addr : e'.cb.remoteAddr = e.cb.remoteAddr
  len : e'.cb.remoteLen = e.cb.remoteLen
  state : e'.cb.state = e.cb.state ∨ e'.cb.state ≤ connected

/-- What can happen while the connection is up. -/
inductive PeerStep (a : RdmaInfo) (e e' : Endpoint) : Prop
  | quiet (h : QuietStep e e')
  | poll (wc : Wc) (rest : List Wc) (hq : e.cq.queue = wc :: rest)
      (hq' : e'.cq.queue = rest) (hsq : e'.sq = e.sq) (herr : e'.qpErr = e.qpErr)
      (hseen : ∀ p, e'.seen p = e.seen p)
      (hcb : e'.cb = (drainOne serverHook e.cb wc 0).cb)
  | complete (p : Posted) (rest : List Posted) (hsq : e.sq = p :: rest)
      (hdone : p.sge.length.toNat ≤ p.moved) (he : e' = e.retire p rest .success)
  | broken (herr : e'.qpErr = true) (hread : e'.readDone = e.readDone)
  | land (hnew : e.received = false)
      (he : e' = { e with
        cb := { e.cb with recvBuf := a }
        rq := e.rq - 1
        cq := e.cq.add ⟨.success, .recv, sizeofRdmaInfo⟩ })

theorem peerStep_of_step {a : RdmaInfo} {e e' : Endpoint} {l : EpLabel}
    (hok : PeerOnceEp a e l) (hup : e.qpErr = false) (h : e.step serverHook l = some e') :
    PeerStep a e e' := by
  cases l with
  | cm event id ret =>
      have herr : event.isError = false := by
        cases he : event.isError with
        | false => rfl
        | true => simp [hok.1 he] at hup
      simp only [Endpoint.step, Option.some.injEq] at h
      subst h
      refine .quiet ⟨rfl, rfl, rfl, fun p => ?_, ?_, ?_, ?_, cmaEventHandler_calm e.cb herr id ret⟩
      · by_cases hr : event = .connectRequest <;> simp [Endpoint.cm, Endpoint.seen, hr]
      all_goals
        simp only [Endpoint.cm]
        cases event <;> simp only [cmaEventHandler]
        split <;> rfl
  | cqEnter =>
      obtain ⟨-, -, rfl⟩ := Endpoint.step_cqEnter h
      exact .quiet ⟨rfl, rfl, rfl, fun _ => rfl, rfl, rfl, rfl, .inl rfl⟩
  | cqPoll ret =>
      obtain rfl : ret = 0 := hok.resolve_right (by simp [hup])
      obtain ⟨-, ⟨-, rfl⟩ | ⟨wc, rest, hq, rfl⟩⟩ := Endpoint.step_poll h
      · exact .quiet ⟨rfl, rfl, rfl, fun _ => rfl, rfl, rfl, rfl, .inl rfl⟩
      · exact .poll wc rest hq rfl rfl rfl (fun p => Endpoint.seen_poll hq rfl rfl) rfl
  | cqPollErr => simp [hup, PeerOnceEp] at hok
  | complete =>
      obtain ⟨p, rest, hsq, -, hdone, rfl⟩ := Endpoint.step_complete h
      exact .complete p rest hsq hdone rfl
  | fail =>
      obtain ⟨p, rest, hsq, -, rfl⟩ := Endpoint.step_fail h
      exact .broken rfl ((Endpoint.seen_retire _ e p rest .failure).trans (Bool.or_false _))
  | flush =>
      obtain ⟨p, rest, -, herr, -⟩ := Endpoint.step_flush h
      simp [hup] at herr
  | land buf byteLen status =>
      obtain ⟨rfl, rfl, rfl, hnew⟩ := hok
      obtain ⟨-, -, rfl⟩ := Endpoint.step_land h
      exact .land hnew rfl
  | flushRecv =>
      obtain ⟨-, herr, -⟩ := Endpoint.step_flushRecv h
      simp [hup] at herr
  | breakQp =>
      simp only [Endpoint.step, Option.some.injEq] at h
      subst h
      exact .broken rfl rfl

/-- In the error state of the queue pair no READ completes. -/
theorem readDone_of_broken {e e' : Endpoint} {l : EpLabel} (herr : e.qpErr = true)
    (h : e.step serverHook l = some e') :
    e'.qpErr = true ∧ (e'.readDone = true → e.readDone = true) := by
  cases l with
  | cm event id ret =>
      simp only [Endpoint.step, Option.some.injEq] at h
      subst h
      refine ⟨herr, ?_⟩
      by_cases hr : event = .connectRequest <;>
        simp [Endpoint.cm, Endpoint.readDone, Endpoint.seen, hr]
  | cqEnter =>
      obtain ⟨-, -, rfl⟩ := Endpoint.step_cqEnter h
      exact ⟨herr, id⟩
  | cqPoll ret =>
      obtain ⟨-, ⟨-, rfl⟩ | ⟨wc, rest, hq, rfl⟩⟩ := Endpoint.step_poll h
      · exact ⟨herr, id⟩
      · exact ⟨herr, fun hr => by rwa [Endpoint.readDone, Endpoint.seen_poll hq rfl rfl] at hr⟩
  | cqPollErr =>
      obtain ⟨-, rfl⟩ := Endpoint.step_cqPollErr h
      exact ⟨herr, id⟩
  | complete =>
      obtain ⟨p, rest, -, hup, -⟩ := Endpoint.step_complete h
      simp [herr] at hup
  | fail =>
      obtain ⟨p, rest, -, hup, -⟩ := Endpoint.step_fail h
      simp [herr] at hup
  | flush =>
      obtain ⟨p, rest, -, -, rfl⟩ := Endpoint.step_flush h
      refine ⟨herr, fun hr => ?_⟩
      rw [Endpoint.readDone, Endpoint.seen_retire] at hr
      simpa [Endpoint.readDone] using hr
  | land buf byteLen status =>
      obtain ⟨-, hup, -⟩ := Endpoint.step_land h
      simp [herr] at hup
  | flushRecv =>
      obtain ⟨-, -, rfl⟩ := Endpoint.step_flushRecv h
      exact ⟨herr, fun hr => by simpa [Endpoint.readDone, Endpoint.seen] using hr⟩
  | breakQp =>
      simp only [Endpoint.step, Option.some.injEq] at h
      subst h
      exact ⟨rfl, id⟩

/-! ## The phases -/

/-- Before the loop, and after a failed start. -/
def EarlyPc : ServerPc → Bool
  | .bindAddr | .listen | .bindWait | .bindTest | .setupQp | .setupBuffers | .postRecv
  | .accept | .acceptWait | .acceptTest | .startWait | .destroyListener | .freed => true
  | _ => false

/-- Where the main thread can be without having posted an RDMA operation
after `startWait`. -/
def ReadyPc : ServerPc → Bool
  | .readSet _ | .readPost _ | .goAhead | .disconnect => true
  | _ => false

section Phases
variable (host : Endian) (a : RdmaInfo) (content : Nat → Byte)

/-- The first `m` bytes from `rdma_buf` on are those of the client. -/
def Agree (m : Nat) (mem : List Byte) : Prop := ∀ j < m, mem[j]? = some (content j)

/-- A SEND, or a transfer between `rdma_buf` and the same place of the
advertised buffer. -/
def Echoes (p : Posted) : Prop :=
  p.wr.opcode = .send ∨ (p.wr.remoteAddr = a.addr host ∧ p.sge.length.toNat ≤ a.len host)

/-- How far the advertisement has come. -/
inductive Arrival (e : Endpoint) : Prop
  | waiting (hnew : e.received = false) (hq : e.cq.queue = [])
      (hst : e.cb.state ≤ connected)
  | landed (hin : e.received = true) (hq : e.cq.queue = [⟨.success, .recv, sizeofRdmaInfo⟩])
      (hbuf : e.cb.recvBuf = a) (hst : e.cb.state ≤ connected)
  | decoded (hin : e.received = true) (hq : e.cq.queue = []) (hdec : Decoded host a e.cb)
      (hst : e.cb.state ≤ rdmaReadAdv)

structure Early (c : ServerConfig) : Prop where
  pc : EarlyPc c.pc = true
  sq : c.ep.sq = []
  arrival : Arrival host a c.ep
  noRead : c.ep.readDone = false

/-- The advertisement is decoded, and no later message can overtake. -/
structure Advertised (e : Endpoint) : Prop where
  received : e.received = true
  decoded : Decoded host a e.cb
  state : e.cb.state ≤ rdmaReadAdv
  noRead : e.readDone = false

structure Ready (c : ServerConfig) : Prop where
  pc : ReadyPc c.pc = true
  advertised : Advertised host a c.ep
  wr : WrReady host a c.ep.cb.mainFields c.pc
  sends : ∀ p ∈ c.ep.sq, p.wr.opcode = .send
  queue : ∀ wc ∈ c.ep.cq.queue, wc.opcode = .send ∧ wc.status = .success
  idle : c.pc ≠ .disconnect → c.ep.sq = [] ∧ c.ep.cq.queue = []

structure Reading (c : ServerConfig) : Prop where
  pc : ∃ i, c.pc = .readWait i
  advertised : Advertised host a c.ep
  queue : c.ep.cq.queue = []
  out : ∃ p, c.ep.sq = [p] ∧ p.wr.opcode = .rdmaRead ∧ p.wr.remoteAddr = a.addr host ∧
    p.sge.length.toNat = a.len host ∧ Agree content p.moved c.rdmaMem

structure Filled (c : ServerConfig) : Prop where
  pc : LoopPc c.pc = true
  decoded : Decoded host a c.ep.cb
  wr : WrReady host a c.ep.cb.mainFields c.pc
  out : ∀ p ∈ c.ep.sq, Echoes host a p
  agree : Agree content (a.len host) c.rdmaMem

def Phase (c : ServerConfig) : Prop :=
  Early host a c ∨ Ready host a c ∨ Reading host a content c ∨ Filled host a content c

structure EchoInv (c : ServerConfig) : Prop where
  ids : IdInv c
  qp : Built c.pc = true → c.ep.cb.qp = c.ep.cb.childCmId
  sameHost : c.ep.cb.mainFields.host = host
  server : c.ep.cb.mainFields.server = 1
  sqWr : c.ep.cb.mainFields.sqWr.opcode = .send
  /-- The client's buffer. -/
  remote : ∀ j < a.len host, c.remoteMem (a.addr host + BitVec.ofNat 64 j) = content j
  room : bufferGone c.pc = true ∨ a.len host ≤ c.rdmaMem.length
  done : c.ep.readDone = true → bufferGone c.pc = true ∨ Agree content (a.len host) c.rdmaMem
  phase : c.ep.qpErr = true ∨ Phase host a content c

end Phases

/-! ## Bytes -/

section Bytes
variable {host : Endian} {a : RdmaInfo} {content : Nat → Byte}

theorem Agree.mono {m m' : Nat} {mem : List Byte} (h : Agree content m mem) (hle : m' ≤ m) :
    Agree content m' mem := fun j hj => h j (by omega)

/-- Reading a byte of the client to its place keeps the agreement, -/
theorem Agree.set {m k : Nat} {mem : List Byte} (h : Agree content m mem)
    (hk : k < mem.length) : Agree content m (mem.set k (content k)) := by
  intro j hj
  by_cases hjk : k = j
  · subst hjk
    exact List.getElem?_set_self hk
  · rw [List.getElem?_set_ne hjk]
    exact h j hj

/-- and the next byte extends it. -/
theorem Agree.succ {k : Nat} {mem : List Byte} (h : Agree content k mem)
    (hk : k < mem.length) : Agree content (k + 1) (mem.set k (content k)) := by
  intro j hj
  rcases Nat.lt_succ_iff_lt_or_eq.mp hj with hlt | rfl
  · exact h.set hk j hlt
  · exact List.getElem?_set_self hk

/-- A NUL among the bytes of the client bounds the string in `rdma_buf`. -/
theorem Agree.strlen {m j : Nat} {mem : List Byte} (h : Agree content m mem) (hj : j < m)
    (hz : content j = 0) : ∃ n, strlen mem = some n ∧ n < m := by
  obtain ⟨n, hn, hle⟩ := strlen_le (by rw [h j hj, hz])
  exact ⟨n, hn, by omega⟩

/-- Before the buffers agree no READ has completed. -/
theorem Phase.done {c : ServerConfig} (h : Phase host a content c)
    (hread : c.ep.readDone = true) : Agree content (a.len host) c.rdmaMem := by
  rcases h with h | h | h | h
  · simp [h.noRead] at hread
  · simp [h.advertised.noRead] at hread
  · simp [h.advertised.noRead] at hread
  · exact h.agree

/-- No phase has freed the buffer with work on the send queue. -/
theorem Phase.not_gone {c : ServerConfig} (h : Phase host a content c) (hsq : c.ep.sq ≠ []) :
    bufferGone c.pc = false := by
  rcases h with h | h | h | h
  · exact absurd h.sq hsq
  · have hpc := h.pc
    revert hpc
    cases c.pc <;> simp [ReadyPc, bufferGone]
  · obtain ⟨i, hpc⟩ := h.pc
    rw [hpc]
    rfl
  · have hpc := h.pc
    revert hpc
    cases c.pc <;> simp [LoopPc, bufferGone]

/-! ## A byte moves -/

section Move
variable {N : Nat} {c c' : ServerConfig} {p : Posted} {rest : List Posted}

/-- A READ under way to `rdma_buf` brings the next byte of the client. -/
theorem Reading.move (h : Reading host a content c)
    (hremote : ∀ j < a.len host, c.remoteMem (a.addr host + BitVec.ofNat 64 j) = content j)
    (hroom : a.len host ≤ c.rdmaMem.length) (hs : step N c .move = some c') :
    Reading host a content c' ∧ c'.remoteMem = c.remoteMem ∧
      c'.rdmaMem.length = c.rdmaMem.length := by
  obtain ⟨p, rest, hsq, -, hlt, hep, hpc, -, hmem, hrem⟩ := step_move hs
  obtain ⟨q, hq, hop, haddr, hlen, hagree⟩ := h.out
  obtain ⟨rfl, rfl⟩ := List.cons.inj (hsq.symm.trans hq)
  -- the READ is the only work request, so its byte is the one that moves
  rw [if_pos hop, haddr, hremote p.moved (by omega)] at hmem
  rw [if_neg (by simp [hop])] at hrem
  have hadv : Advertised host a c'.ep := by
    rw [hep]
    exact ⟨h.advertised.received, h.advertised.decoded, h.advertised.state, h.advertised.noRead⟩
  refine ⟨⟨by rw [hpc]; exact h.pc, hadv, by rw [hep]; exact h.queue, ?_⟩, hrem,
    by rw [hmem, List.length_set]⟩
  refine ⟨{ p with moved := p.moved + 1 }, by rw [hep], hop, haddr, hlen, ?_⟩
  rw [hmem]
  exact hagree.succ (by omega)

/-- Once the buffers agree, every byte moved is the one already there. -/
theorem Filled.move (h : Filled host a content c)
    (hremote : ∀ j < a.len host, c.remoteMem (a.addr host + BitVec.ofNat 64 j) = content j)
    (hroom : a.len host ≤ c.rdmaMem.length) (hs : step N c .move = some c') :
    Filled host a content c' ∧
      (∀ j < a.len host, c'.remoteMem (a.addr host + BitVec.ofNat 64 j) = content j) ∧
      c'.rdmaMem.length = c.rdmaMem.length := by
  obtain ⟨p, rest, hsq, -, hlt, hep, hpc, -, hmem, hrem⟩ := step_move hs
  have hout : ∀ q ∈ c'.ep.sq, Echoes host a q := by
    intro q hq
    rw [hep] at hq
    rcases List.mem_cons.mp hq with rfl | hq
    · exact h.out p (by simp [hsq])
    · exact h.out q (by simp [hsq, hq])
  have hbuild : Agree content (a.len host) c'.rdmaMem → Filled host a content c' := fun hag =>
    ⟨by rw [hpc]; exact h.pc, by rw [hep]; exact h.decoded, by rw [hpc, hep]; exact h.wr,
      hout, hag⟩
  -- a SEND moves no byte of either buffer
  rcases h.out p (by simp [hsq]) with hop | ⟨haddr, hlen⟩
  · rw [if_neg (by simp [hop])] at hmem hrem
    exact ⟨hbuild (hmem ▸ h.agree), by rw [hrem]; exact hremote, by rw [hmem]⟩
  · cases hop : p.wr.opcode with
    | send =>
        rw [if_neg (by simp [hop])] at hmem hrem
        exact ⟨hbuild (hmem ▸ h.agree), by rw [hrem]; exact hremote, by rw [hmem]⟩
    | rdmaRead =>
        rw [if_pos hop, haddr, hremote p.moved (by omega)] at hmem
        rw [if_neg (by simp [hop])] at hrem
        exact ⟨hbuild (by rw [hmem]; exact h.agree.set (by omega)),
          by rw [hrem]; exact hremote, by rw [hmem, List.length_set]⟩
    | rdmaWrite =>
        rw [if_neg (by simp [hop])] at hmem
        rw [if_pos hop, haddr, List.getD_eq_getElem?_getD, h.agree p.moved (by omega)] at hrem
        refine ⟨hbuild (hmem ▸ h.agree), ?_, by rw [hmem]⟩
        intro j hj
        rw [hrem]
        have hbound := a.len_lt host
        by_cases hjk : j = p.moved
        · rw [hjk, Function.update_self]
          rfl
        · rw [Function.update_of_ne fun heq => hjk (offset_inj (by omega) (by omega) heq)]
          exact hremote j hj

/-- A byte of the go-ahead changes no memory. -/
theorem Ready.move (h : Ready host a c) (hs : step N c .move = some c') :
    Ready host a c' ∧ c'.remoteMem = c.remoteMem ∧ c'.rdmaMem = c.rdmaMem := by
  obtain ⟨p, rest, hsq, -, hlt, hep, hpc, -, hmem, hrem⟩ := step_move hs
  have hop : p.wr.opcode = .send := h.sends p (by simp [hsq])
  rw [if_neg (by simp [hop])] at hmem hrem
  have hadv : Advertised host a c'.ep := by
    rw [hep]
    exact ⟨h.advertised.received, h.advertised.decoded, h.advertised.state, h.advertised.noRead⟩
  refine ⟨⟨by rw [hpc]; exact h.pc, hadv, by rw [hpc, hep]; exact h.wr, ?_,
    by rw [hep]; exact h.queue, ?_⟩, hrem, hmem⟩
  · intro q hq
    rw [hep] at hq
    rcases List.mem_cons.mp hq with rfl | hq
    · exact hop
    · exact h.sends q (by simp [hsq, hq])
  · intro hne
    have hnil := (h.idle (hpc ▸ hne)).1
    simp [hnil] at hsq

theorem EchoInv.move (h : EchoInv host a content c) (hs : step N c .move = some c') :
    EchoInv host a content c' := by
  obtain ⟨p, rest, hsq, hup, -, hep, hpc, -⟩ := step_move hs
  have hphase : Phase host a content c := h.phase.resolve_left (by simp [hup])
  have hgone := hphase.not_gone (by simp [hsq])
  have hroom := h.room.resolve_left (by simp [hgone])
  have hmoved : Phase host a content c' ∧
      (∀ j < a.len host, c'.remoteMem (a.addr host + BitVec.ofNat 64 j) = content j) ∧
      c'.rdmaMem.length = c.rdmaMem.length := by
    rcases hphase with hp | hp | hp | hp
    · exact absurd hp.sq (by simp [hsq])
    · obtain ⟨hp', hrem, hmem⟩ := hp.move hs
      exact ⟨.inr (.inl hp'), by rw [hrem]; exact h.remote, by rw [hmem]⟩
    · obtain ⟨hp', hrem, hlen⟩ := hp.move h.remote hroom hs
      exact ⟨.inr (.inr (.inl hp')), by rw [hrem]; exact h.remote, hlen⟩
    · obtain ⟨hp', hrem, hlen⟩ := hp.move h.remote hroom hs
      exact ⟨.inr (.inr (.inr hp')), hrem, hlen⟩
  obtain ⟨hp', hremote, hlen⟩ := hmoved
  have hcb : c'.ep.cb = c.ep.cb := by rw [hep]
  exact
    { ids := h.ids.step (N := N) (l := .move) (by simpa [freshStep, Fresh] using hs)
      qp := by rw [hpc, hcb]; exact h.qp
      sameHost := by rw [hcb]; exact h.sameHost
      server := by rw [hcb]; exact h.server
      sqWr := by rw [hcb]; exact h.sqWr
      remote := hremote
      room := .inr (by omega)
      done := fun hr => .inr (hp'.done hr)
      phase := .inr hp' }

end Move

/-! ## A step of the endpoint -/

section Ep
variable {c : ServerConfig} {e' : Endpoint}

theorem QuietStep.decoded {e : Endpoint} (h : QuietStep e e') (hd : Decoded host a e.cb) :
    Decoded host a e'.cb :=
  ⟨h.buf.trans hd.buf, h.addr.trans hd.addr, h.len.trans hd.len⟩

theorem QuietStep.state_le {e : Endpoint} (h : QuietStep e e') {bound : TestState}
    (hb : connected ≤ bound) (hst : e.cb.state ≤ bound) : e'.cb.state ≤ bound := by
  -- a CM event has lowered `state` if it has changed it
  rcases h.state with hs | hs
  · rw [hs]
    exact hst
  · exact Nat.le_trans hs hb

theorem QuietStep.advertised {e : Endpoint} (h : QuietStep e e') (ha : Advertised host a e) :
    Advertised host a e' :=
  ⟨(h.seen _).trans ha.received, h.decoded ha.decoded, h.state_le (by decide) ha.state,
    (h.seen _).trans ha.noRead⟩

/-- The advertisement is decoded when its completion is polled. -/
theorem drainOne_advert {cb : IbContext} (hsrv : cb.server ≠ 0) (hhost : cb.host = host)
    (hbuf : cb.recvBuf = a) (hst : cb.state ≤ connected) :
    Decoded host a (drainOne serverHook cb ⟨.success, .recv, sizeofRdmaInfo⟩ 0).cb ∧
      (drainOne serverHook cb ⟨.success, .recv, sizeofRdmaInfo⟩ 0).cb.state = rdmaReadAdv := by
  simp only [drainOne, serverHook, hsrv, ne_eq, not_false_eq_true, if_true, serverRecv,
    not_true_eq_false, if_false, hst, true_or]
  exact ⟨⟨hbuf, by simp only [hhost, hbuf]; rfl, by simp only [hhost, hbuf]⟩, trivial⟩

theorem Early.ep (h : Early host a c) (hsrv : c.ep.cb.server ≠ 0)
    (hhost : c.ep.cb.host = host) (hs : PeerStep a c.ep e') :
    (e'.qpErr = true ∧ e'.readDone = false) ∨ Early host a { c with ep := e' } := by
  cases hs with
  | quiet hq =>
      refine .inr ⟨h.pc, hq.sq.trans h.sq, ?_, (hq.seen _).trans h.noRead⟩
      cases h.arrival with
      | waiting hnew hqueue hst =>
          exact .waiting ((hq.seen _).trans hnew) (hq.queue.trans hqueue)
            (hq.state_le (by decide) hst)
      | landed hin hqueue hbuf hst =>
          exact .landed ((hq.seen _).trans hin) (hq.queue.trans hqueue) (hq.buf.trans hbuf)
            (hq.state_le (by decide) hst)
      | decoded hin hqueue hdec hst =>
          exact .decoded ((hq.seen _).trans hin) (hq.queue.trans hqueue) (hq.decoded hdec)
            (hq.state_le (by decide) hst)
  | poll wc rest hq hq' hsq herr hseen hcb =>
      refine .inr ⟨h.pc, hsq.trans h.sq, ?_, (hseen _).trans h.noRead⟩
      cases h.arrival with
      | waiting _ hqueue _ => simp [hq] at hqueue
      | landed hin hqueue hbuf hst =>
          rw [hq] at hqueue
          obtain ⟨rfl, rfl⟩ := List.cons.inj hqueue
          obtain ⟨hdec, hadv⟩ := drainOne_advert hsrv hhost hbuf hst
          exact .decoded ((hseen _).trans hin) hq' (hcb ▸ hdec) (by simp [hcb, hadv])
      | decoded _ hqueue _ _ => simp [hq] at hqueue
  | complete p rest hsq _ _ => simp [h.sq] at hsq
  | broken herr hread => exact .inl ⟨herr, hread.trans h.noRead⟩
  | land hnew he =>
      subst he
      have hread : (Endpoint.readDone { c.ep with
          cb := { c.ep.cb with recvBuf := a }
          rq := c.ep.rq - 1
          cq := c.ep.cq.add ⟨.success, .recv, sizeofRdmaInfo⟩ }) = false := by
        have := h.noRead
        simp only [Endpoint.readDone, Endpoint.seen, Cq.add_queue, List.any_append,
          Bool.or_eq_false_iff] at this ⊢
        exact ⟨⟨this.1, rfl⟩, this.2⟩
      refine .inr ⟨h.pc, h.sq, ?_, hread⟩
      cases h.arrival with
      | waiting _ hqueue hst =>
          refine .landed ?_ (by simp [hqueue]) rfl hst
          simp [Endpoint.received, Endpoint.seen]
      | landed hin _ _ _ => simp [hnew] at hin
      | decoded hin _ _ _ => simp [hnew] at hin

theorem Ready.ep (h : Ready host a c) (hmf : e'.cb.mainFields = c.ep.cb.mainFields)
    (hs : PeerStep a c.ep e') :
    (e'.qpErr = true ∧ e'.readDone = false) ∨ Ready host a { c with ep := e' } := by
  have hwr : WrReady host a e'.cb.mainFields c.pc := hmf ▸ h.wr
  cases hs with
  | quiet hq =>
      refine .inr ⟨h.pc, hq.advertised h.advertised, hwr, hq.sq ▸ h.sends, hq.queue ▸ h.queue, ?_⟩
      intro hne
      exact ⟨hq.sq.trans (h.idle hne).1, hq.queue.trans (h.idle hne).2⟩
  | poll wc rest hq hq' hsq herr hseen hcb =>
      obtain ⟨hop, hok⟩ := h.queue wc (by simp [hq])
      have hadv : Advertised host a e' := by
        obtain ⟨hr, hd, hst, hn⟩ := h.advertised
        have hcb' : e'.cb.recvBuf = c.ep.cb.recvBuf ∧ e'.cb.remoteAddr = c.ep.cb.remoteAddr ∧
            e'.cb.remoteLen = c.ep.cb.remoteLen ∧ e'.cb.state = c.ep.cb.state := by
          rw [hcb]
          simp [drainOne, hop, hok]
        exact ⟨(hseen _).trans hr, ⟨hcb'.1.trans hd.buf, hcb'.2.1.trans hd.addr,
          hcb'.2.2.1.trans hd.len⟩, by rw [hcb'.2.2.2]; exact hst, (hseen _).trans hn⟩
      refine .inr ⟨h.pc, hadv, hwr, hsq ▸ h.sends, ?_, ?_⟩
      · intro w hw
        exact h.queue w (by rw [hq]; exact List.mem_cons_of_mem wc (hq' ▸ hw))
      · intro hne
        exact absurd (h.idle hne).2 (by simp [hq])
  | complete p rest hsq hdone he =>
      have hop := h.sends p (by simp [hsq])
      have hseen : ∀ q : Wc → Bool, q ⟨.success, .send, p.sge.length⟩ = false →
          e'.seen q = c.ep.seen q := by
        intro q hq
        rw [he, Endpoint.seen_retire, hop, WrOpcode.wc, hq, Bool.or_false]
      have hadv : Advertised host a e' := by
        obtain ⟨hr, hd, hst, hn⟩ := h.advertised
        exact ⟨(hseen _ rfl).trans hr, he ▸ hd, he ▸ hst, (hseen _ rfl).trans hn⟩
      refine .inr ⟨h.pc, hadv, hwr, ?_, ?_, ?_⟩
      · intro q hq
        subst he
        exact h.sends q (by rw [hsq]; exact List.mem_cons_of_mem p hq)
      · intro w hw
        subst he
        simp only [Endpoint.retire, Cq.add_queue, List.mem_append, List.mem_singleton] at hw
        rcases hw with hw | rfl
        · exact h.queue w hw
        · exact ⟨by rw [hop]; rfl, rfl⟩
      · intro hne
        exact absurd (h.idle hne).1 (by simp [hsq])
  | broken herr hread => exact .inl ⟨herr, hread.trans h.advertised.noRead⟩
  | land hnew _ => simp [h.advertised.received] at hnew

theorem Reading.ep (h : Reading host a content c) (hs : PeerStep a c.ep e') :
    (e'.qpErr = true ∧ e'.readDone = false) ∨
      Reading host a content { c with ep := e' } ∨ Filled host a content { c with ep := e' } := by
  cases hs with
  | quiet hq =>
      refine .inr (.inl ⟨h.pc, hq.advertised h.advertised, hq.queue.trans h.queue, ?_⟩)
      obtain ⟨p, hp, hrest⟩ := h.out
      exact ⟨p, hq.sq.trans hp, hrest⟩
  | poll wc rest hq _ _ _ _ _ => simp [h.queue] at hq
  | complete p rest hsq hdone he =>
      -- the READ has brought all bytes
      obtain ⟨q, hq, -, -, hlen, hagree⟩ := h.out
      obtain ⟨rfl, rfl⟩ := List.cons.inj (hsq.symm.trans hq)
      obtain ⟨i, hpc⟩ := h.pc
      refine .inr (.inr ⟨by simp [hpc, LoopPc], ?_, by simp [hpc, WrReady], ?_, ?_⟩)
      · rw [he]
        exact h.advertised.decoded
      · simp [he, Endpoint.retire]
      · exact hagree.mono (by omega)
  | broken herr hread => exact .inl ⟨herr, hread.trans h.advertised.noRead⟩
  | land hnew _ => simp [h.advertised.received] at hnew

theorem Filled.ep (h : Filled host a content c) (hmf : e'.cb.mainFields = c.ep.cb.mainFields)
    (hhost : c.ep.cb.host = host) (hs : PeerStep a c.ep e') :
    e'.qpErr = true ∨ Filled host a content { c with ep := e' } := by
  have hwr : WrReady host a e'.cb.mainFields c.pc := hmf ▸ h.wr
  cases hs with
  | quiet hq =>
      exact .inr ⟨h.pc, hq.decoded h.decoded, hwr, hq.sq ▸ h.out, h.agree⟩
  | poll wc rest _ _ hsq _ _ hcb =>
      exact .inr ⟨h.pc, hcb ▸ h.decoded.drainOne hhost wc 0, hwr, hsq ▸ h.out, h.agree⟩
  | complete p rest hsq _ he =>
      refine .inr ⟨h.pc, he ▸ h.decoded, hwr, ?_, h.agree⟩
      intro q hq
      subst he
      exact h.out q (by rw [hsq]; exact List.mem_cons_of_mem p hq)
  | broken herr _ => exact .inl herr
  | land _ he =>
      subst he
      exact .inr ⟨h.pc, ⟨rfl, h.decoded.addr, h.decoded.len⟩, hwr, h.out, h.agree⟩

theorem built_inSession {pc : ServerPc} (h : Built pc = true) : InSession pc = true := by
  revert h
  cases pc <;> simp [Built, InSession]

theorem EchoInv.ep {N : Nat} {c' : ServerConfig} {l : EpLabel} (h : EchoInv host a content c)
    (hok : PeerOnceEp a c.ep l) (hs : step N c (.ep l) = some c') :
    EchoInv host a content c' := by
  have hfresh : Fresh c (.ep l) := by
    unfold Fresh
    split
    · rename_i id ret heq
      obtain rfl := ServerLabel.ep.inj heq
      simp [hok.2 rfl]
    · trivial
  have hids : IdInv c' := h.ids.step (N := N) (l := .ep l) (by rw [freshStep, if_pos hfresh, hs])
  have hses := step_session hs
  obtain ⟨-, e', he, rfl⟩ := step_ep hs
  have hmf := Endpoint.step_mainFields serverHook_framed he
  have hqp : e'.cb.qp = c.ep.cb.qp := congrArg MainFields.qp hmf
  have hsrv : c.ep.cb.server ≠ 0 := by
    have hone : c.ep.cb.server = 1 := h.server
    simp [hone]
  have hphase : (e'.readDone = true → bufferGone c.pc = true ∨
      Agree content (a.len host) c.rdmaMem) ∧
      (e'.qpErr = true ∨ Phase host a content { c with ep := e' }) := by
    -- with the queue pair broken nothing completes, and the phases are over
    rcases h.phase with herr | hp
    · obtain ⟨herr', hread⟩ := readDone_of_broken herr he
      exact ⟨fun hr => h.done (hread hr), .inl herr'⟩
    · cases hup : c.ep.qpErr with
      | true =>
          obtain ⟨herr', hread⟩ := readDone_of_broken hup he
          exact ⟨fun hr => h.done (hread hr), .inl herr'⟩
      | false =>
          have hpeer := peerStep_of_step hok hup he
          have hlift : Phase host a content { c with ep := e' } →
              (e'.readDone = true → bufferGone c.pc = true ∨
                Agree content (a.len host) c.rdmaMem) ∧
              (e'.qpErr = true ∨ Phase host a content { c with ep := e' }) :=
            fun hp' => ⟨fun hr => .inr (hp'.done hr), .inr hp'⟩
          rcases hp with hp | hp | hp | hp
          · rcases hp.ep hsrv h.sameHost hpeer with ⟨herr, hread⟩ | hp'
            · exact ⟨by simp [hread], .inl herr⟩
            · exact hlift (.inl hp')
          · rcases hp.ep hmf hpeer with ⟨herr, hread⟩ | hp'
            · exact ⟨by simp [hread], .inl herr⟩
            · exact hlift (.inr (.inl hp'))
          · rcases hp.ep hpeer with ⟨herr, hread⟩ | hp' | hp'
            · exact ⟨by simp [hread], .inl herr⟩
            · exact hlift (.inr (.inr (.inl hp')))
            · exact hlift (.inr (.inr (.inr hp')))
          · rcases hp.ep hmf h.sameHost hpeer with herr | hp'
            · exact ⟨fun _ => .inr hp.agree, .inl herr⟩
            · exact hlift (.inr (.inr (.inr hp')))
  refine
    { ids := hids
      qp := ?_
      sameHost := hmf ▸ h.sameHost
      server := hmf ▸ h.server
      sqWr := hmf ▸ h.sqWr
      remote := h.remote
      room := h.room
      done := hphase.1
      phase := hphase.2 }
  intro hbuilt
  rcases hses with ⟨id, ret, heq, -, hreq, -⟩ | ⟨-, hst⟩
  · obtain rfl := ServerLabel.ep.inj heq
    exact absurd (hok.2 rfl) (h.ids.begun (built_inSession hbuilt))
  · exact hqp.trans ((h.qp hbuilt).trans hst.child.symm)

end Ep

/-! ## A step of the main thread -/

section Main
variable {N : Nat} {c c' : ServerConfig} {inp : MainIn}

/-- Before the loop the main thread posts no work request and leaves the
decoded fields alone; it enters the loop when the advertisement is in. -/
theorem serverMain_early {len : Option Nat} {cb cb' : IbContext} {pc pc' : ServerPc}
    {call : Call} (h : serverMain N len inp cb pc = some (cb', pc', call))
    (hret : inp.ret = 0) (hsig : inp.signal = false) (hpc : EarlyPc pc = true)
    (hst : cb.state ≤ rdmaReadAdv) :
    call.quiet = true ∧ cb'.recvBuf = cb.recvBuf ∧ cb'.remoteAddr = cb.remoteAddr ∧
      cb'.remoteLen = cb.remoteLen ∧
      (EarlyPc pc' = true ∨
        (rdmaReadAdv ≤ cb.state ∧ (pc' = .readSet 0 ∨ pc' = .goAhead))) := by
  have herr : cb.state ≠ error := by
    intro he
    rw [he] at hst
    exact absurd hst (by decide)
  cases serverMain_move h with
  | started hgo | startedEmpty hgo =>
      have hadv := hgo.resolve_right (by simp [hsig])
      exact ⟨rfl, rfl, rfl, rfl, .inr ⟨hadv, by simp⟩⟩
  | acceptBroken he => exact absurd he herr
  | bindFailed hne | listenFailed hne | qpFailed hne | buffersFailed hne | recvFailed hne
  | acceptFailed hne => exact absurd hret hne
  | _ => first | exact ⟨rfl, rfl, rfl, rfl, .inl rfl⟩ | cases hpc

theorem call_qpErr {e e' : Endpoint} {call : Call} (h : e.call inp call = some e')
    (herr : e.qpErr = true) : e'.qpErr = true := by
  cases call with
  | postSend wr sge =>
      simp only [Endpoint.call, Option.some.injEq] at h
      subst h
      by_cases hret : inp.ret = 0 <;> simp [Endpoint.postSend, hret, herr]
  | destroyQp =>
      simp only [Endpoint.call, Endpoint.destroyQp] at h
      split at h <;> cases h
      exact herr
  | _ =>
      simp only [Endpoint.call, Option.some.injEq] at h
      subst h
      simp [herr]

theorem Early.main (h : Early host a c) (hret : inp.ret = 0) (hsig : inp.signal = false)
    (hs : step N c (.main inp) = some c') : Early host a c' ∨ Ready host a c' := by
  obtain ⟨cb, call, hm, hep, -, -⟩ := step_main_call hs
  have hst : c.ep.cb.state ≤ rdmaReadAdv := by
    cases h.arrival with
    | waiting _ _ hst | landed _ _ _ hst => exact Nat.le_trans hst (by decide)
    | decoded _ _ _ hst => exact hst
  have hstate := serverMain_state hm
  obtain ⟨hquiet, hbuf, haddr, hlen, hnext⟩ := serverMain_early hm hret hsig h.pc hst
  obtain ⟨hcb, hsq, hq, -⟩ := Endpoint.call_quiet hep hquiet
  have hne : call ≠ .destroyQp := by
    intro he
    rw [he] at hquiet
    cases hquiet
  have hseen : ∀ p, c'.ep.seen p = c.ep.seen p := by
    intro p
    have := Endpoint.seen_call (p := p) hep hne
    exact this
  have hsame : QuietStep { c.ep with qpErr := c'.ep.qpErr } c'.ep :=
    ⟨hq, hsq, rfl, hseen, by rw [hcb]; exact hbuf, by rw [hcb]; exact haddr,
      by rw [hcb]; exact hlen, .inl (by rw [hcb]; exact hstate)⟩
  rcases hnext with hearly | ⟨hadv, hnext⟩
  · refine .inl ⟨hearly, hsq.trans h.sq, ?_, (hseen _).trans h.noRead⟩
    cases h.arrival with
    | waiting hnew hqueue hst =>
        exact .waiting ((hseen _).trans hnew) (hq.trans hqueue) (hsame.state_le (by decide) hst)
    | landed hin hqueue hb hst =>
        exact .landed ((hseen _).trans hin) (hq.trans hqueue) (hsame.buf.trans hb)
          (hsame.state_le (by decide) hst)
    | decoded hin hqueue hdec hst =>
        exact .decoded ((hseen _).trans hin) (hq.trans hqueue) (hsame.decoded hdec)
          (hsame.state_le (by decide) hst)
  · -- `state` is at least RDMA_READ_ADV, so the advertisement is decoded
    cases h.arrival with
    | waiting _ _ hst => exact absurd (Nat.le_trans hadv hst) (by decide)
    | landed _ _ _ hst => exact absurd (Nat.le_trans hadv hst) (by decide)
    | decoded hin hqueue hdec hst =>
        have hnil : c'.ep.sq = [] := hsq.trans h.sq
        have hqnil : c'.ep.cq.queue = [] := hq.trans hqueue
        refine .inr ⟨?_, ⟨(hseen _).trans hin, hsame.decoded hdec,
          hsame.state_le (by decide) hst, (hseen _).trans h.noRead⟩, ?_, by simp [hnil],
          by simp [hqnil], fun _ => ⟨hnil, hqnil⟩⟩
        · rcases hnext with hn | hn <;> rw [hn] <;> rfl
        · rcases hnext with hn | hn <;> rw [hn] <;> trivial

/-- A post leaves the advertisement as it is. -/
theorem Advertised.post {e : Endpoint} (h : Advertised host a e) (wr : SendWr) (sge : Sge) :
    Advertised host a (e.postSend wr sge 0) := by
  have hin := h.received
  have hno := h.noRead
  refine ⟨?_, h.decoded, h.state, ?_⟩
  · simpa [Endpoint.received, Endpoint.seen, Endpoint.postSend] using hin
  · simpa [Endpoint.readDone, Endpoint.seen, Endpoint.postSend] using hno

theorem Ready.main (content : Nat → Byte) (h : Ready host a c) (hret : inp.ret = 0)
    (hqp : c.ep.cb.qp = c.ep.cb.childCmId) (hsq : c.ep.cb.sqWr.opcode = .send)
    (hs : step N c (.main inp) = some c') :
    c'.ep.qpErr = true ∨ Ready host a c' ∨ Reading host a content c' := by
  obtain ⟨hpc, hadv, hwr, hsends, hqueue, hidle⟩ := h
  cases hc : c.pc with
  | readSet i =>
      obtain ⟨hnil, hqnil⟩ := hidle (by simp [hc])
      rw [main_readSet hc, Option.some.injEq] at hs
      subst hs
      exact .inr (.inl ⟨rfl, ⟨hadv.received, ⟨hadv.decoded.buf, hadv.decoded.addr,
        hadv.decoded.len⟩, hadv.state, hadv.noRead⟩,
        ⟨rfl, hadv.decoded.addr, congrArg BitVec.toNat hadv.decoded.len⟩, hsends, hqueue,
        fun _ => ⟨hnil, hqnil⟩⟩)
  | readPost i =>
      obtain ⟨hnil, hqnil⟩ := hidle (by simp [hc])
      rw [hc] at hwr
      obtain ⟨hop, haddr, hlen⟩ := hwr
      rw [main_readPost hc, Option.some.injEq] at hs
      subst hs
      rw [hret]
      refine .inr (.inr ⟨⟨i, rfl⟩, hadv.post _ _, hqnil,
        ⟨c.ep.cb.rdmaSqWr, c.ep.cb.rdmaSgl, 0⟩, ?_, hop, haddr, hlen, ?_⟩)
      · show c.ep.sq ++ _ = _
        rw [hnil]
        rfl
      · -- no byte has moved yet
        exact fun j hj => absurd hj (Nat.not_lt_zero j)
  | goAhead =>
      obtain ⟨hnil, hqnil⟩ := hidle (by simp [hc])
      rw [main_goAhead hc, Option.some.injEq] at hs
      subst hs
      rw [hret]
      refine .inr (.inl ⟨rfl, hadv.post _ _, trivial, ?_, hqueue, fun hne => absurd rfl hne⟩)
      intro p hp
      have hp : p ∈ c.ep.sq ++ [⟨c.ep.cb.sqWr, c.ep.cb.sendSgl, 0⟩] := hp
      rw [hnil, List.nil_append, List.mem_singleton] at hp
      rw [hp]
      exact hsq
  | disconnect =>
      rw [main_disconnect hc, Option.some.injEq] at hs
      subst hs
      exact .inl (by simp [hqp])
  | _ => simp [hc, ReadyPc] at hpc

/-- The wait of the first READ does not end while it is out. -/
theorem Reading.main (h : Reading host a content c) (hsig : inp.signal = false)
    (hs : step N c (.main inp) = some c') : False := by
  obtain ⟨i, hpc⟩ := h.pc
  have hst := h.advertised.state
  obtain ⟨hgo, -⟩ := main_wait (rdmaReadComplete ≤ c.ep.cb.state) hs (by rw [hpc]; rfl)
  rw [hsig] at hgo
  simp at hgo hst
  omega

theorem loopHead_echo (host : Endian) (a : RdmaInfo) (N i : Nat) (f : MainFields) :
    LoopPc (loopHead N i) = true ∧ WrReady host a f (loopHead N i) := by
  unfold loopHead
  split <;> exact ⟨rfl, trivial⟩

/-- A statement that posts an operation which echoes. -/
theorem Filled.post (h : Filled host a content c) {pc : ServerPc} {wr : SendWr} {sge : Sge}
    (ret : Int) (hpc : LoopPc pc = true) (hwr : ∀ f, WrReady host a f pc)
    (hnew : Echoes host a ⟨wr, sge, 0⟩) :
    Filled host a content { c with ep := c.ep.postSend wr sge ret, pc := pc } := by
  obtain ⟨hcb, -, new, hsq, hall⟩ := c.ep.postSend_sq wr sge ret
  refine ⟨hpc, ?_, hwr _, ?_, h.agree⟩
  · show Decoded host a (c.ep.postSend wr sge ret).cb
    rw [hcb]
    exact h.decoded
  · show ∀ p ∈ (c.ep.postSend wr sge ret).sq, Echoes host a p
    rw [hsq]
    intro p hp
    rcases List.mem_append.mp hp with hp | hp
    · exact h.out p hp
    · rw [hall p hp]
      exact hnew

/-- `megaVM_rdma_write` sets up a WRITE of the client's string. -/
theorem Filled.writeSet (h : Filled host a content c) {k : Nat} (hc : c.pc = .writeSet k)
    (hnul : ∃ j < a.len host, content j = 0) (hs : step N c (.main inp) = some c') :
    Filled host a content c' := by
  obtain ⟨j, hj, hz⟩ := hnul
  obtain ⟨n, hn, hlt⟩ := h.agree.strlen hj hz
  have hdec := h.decoded
  have hbound := a.len_lt host
  rw [main_writeSet hc hn, Option.some.injEq] at hs
  subst hs
  refine ⟨rfl, ⟨hdec.buf, hdec.addr, hdec.len⟩, ⟨rfl, hdec.addr, ?_⟩, h.out, h.agree⟩
  show (BitVec.ofNat 32 (n + 1)).toNat ≤ a.len host
  rw [BitVec.toNat_ofNat]
  omega

theorem Filled.main (h : Filled host a content c)
    (hqp : c.ep.cb.qp = c.ep.cb.childCmId) (hsq : c.ep.cb.sqWr.opcode = .send)
    (hnul : ∃ j < a.len host, content j = 0) (hs : step N c (.main inp) = some c') :
    c'.ep.qpErr = true ∨ Filled host a content c' := by
  have hpc := h.pc
  have hdec := h.decoded
  have hwr := h.wr
  cases hc : c.pc with
  | readSet i =>
      rw [main_readSet hc, Option.some.injEq] at hs
      subst hs
      exact .inr ⟨rfl, ⟨hdec.buf, hdec.addr, hdec.len⟩,
        ⟨rfl, hdec.addr, congrArg BitVec.toNat hdec.len⟩, h.out, h.agree⟩
  | readPost i =>
      rw [hc] at hwr
      rw [main_readPost hc, Option.some.injEq] at hs
      subst hs
      exact .inr (h.post _ rfl (fun _ => trivial) (.inr ⟨hwr.2.1, Nat.le_of_eq hwr.2.2⟩))
  | readWait i =>
      obtain ⟨-, rfl⟩ := main_wait (rdmaReadComplete ≤ c.ep.cb.state) hs
        (by rw [hc]; rfl)
      exact .inr ⟨rfl, hdec, trivial, h.out, h.agree⟩
  | writeSet i => exact .inr (h.writeSet hc hnul hs)
  | writePost i =>
      rw [hc] at hwr
      rw [main_writePost hc, Option.some.injEq] at hs
      subst hs
      exact .inr (h.post _ rfl (fun _ => trivial) (.inr ⟨hwr.2.1, hwr.2.2⟩))
  | writeWait i =>
      obtain ⟨-, rfl⟩ := main_wait (rdmaWriteComplete ≤ c.ep.cb.state) hs
        (by rw [hc]; rfl)
      obtain ⟨hloop, hready⟩ := loopHead_echo host a N (i + 1) c.ep.cb.mainFields
      exact .inr ⟨hloop, hdec, hready, h.out, h.agree⟩
  | goAhead =>
      rw [main_goAhead hc, Option.some.injEq] at hs
      subst hs
      exact .inr (h.post _ rfl (fun _ => trivial) (.inl hsq))
  | disconnect =>
      rw [main_disconnect hc, Option.some.injEq] at hs
      subst hs
      exact .inl (by simp [hqp])
  | _ => simp [hc, LoopPc] at hpc

theorem EchoInv.main (h : EchoInv host a content c) (hret : inp.ret = 0)
    (hsig : inp.signal = false)
    (hnul : LoopPc c.pc = true → ∃ j < a.len host, content j = 0)
    (hs : step N c (.main inp) = some c') : EchoInv host a content c' := by
  obtain ⟨cb, call, hm, hep, hmem, hrem⟩ := step_main_call hs
  obtain ⟨hhost, hsrv, hsq, hold, hqp⟩ := serverMain_base hm
  obtain ⟨-, hcb, -, -⟩ := Endpoint.call_closed hep
  have hread : c'.ep.readDone = true → c.ep.readDone = true := by
    intro hr
    have := Endpoint.seen_of_call hep hr
    exact this
  have hphase : (c'.ep.readDone = true → bufferGone c'.pc = true ∨
      Agree content (a.len host) c'.rdmaMem) ∧
      (c'.ep.qpErr = true ∨ Phase host a content c') := by
    have hdone : c'.ep.readDone = true → bufferGone c'.pc = true ∨
        Agree content (a.len host) c'.rdmaMem := fun hr => by
      rw [hmem]
      exact (h.done (hread hr)).imp_left hold
    refine ⟨hdone, ?_⟩
    rcases h.phase with herr | hp | hp | hp | hp
    · exact .inl (call_qpErr hep herr)
    · rcases hp.main hret hsig hs with hp' | hp'
      · exact .inr (.inl hp')
      · exact .inr (.inr (.inl hp'))
    · have hbuilt : Built c.pc = true := by
        have := hp.pc
        revert this
        cases c.pc <;> simp [ReadyPc, Built]
      rcases hp.main content hret (h.qp hbuilt) h.sqWr hs with herr | hp' | hp'
      · exact .inl herr
      · exact .inr (.inr (.inl hp'))
      · exact .inr (.inr (.inr (.inl hp')))
    -- the main thread is blocked while the first READ is out
    · exact (hp.main hsig hs).elim
    · have hbuilt : Built c.pc = true := by
        have := hp.pc
        revert this
        cases c.pc <;> simp [LoopPc, Built]
      rcases hp.main (h.qp hbuilt) h.sqWr (hnul hp.pc) hs with herr | hp'
      · exact .inl herr
      · exact .inr (.inr (.inr (.inr hp')))
  exact
    { ids := h.ids.step (N := N) (l := .main inp) (by simpa [freshStep, Fresh] using hs)
      qp := by rw [hcb]; exact hqp h.qp
      sameHost := by rw [hcb]; exact hhost.trans h.sameHost
      server := by rw [hcb]; exact hsrv.trans h.server
      sqWr := by rw [hcb]; exact hsq h.sqWr
      remote := by rw [hrem]; exact h.remote
      room := by rw [hmem]; exact h.room.imp_left hold
      done := hphase.1
      phase := hphase.2 }

end Main

/-! ## Runs -/

theorem EchoInv.step {N : Nat} {c c' : ServerConfig} {l : ServerLabel}
    (h : EchoInv host a content c)
    (hnul : LoopPc c.pc = true → ∃ j < a.len host, content j = 0) (hok : PeerOnce a c l)
    (hs : step N c l = some c') : EchoInv host a content c' := by
  cases l with
  | main inp => exact h.main hok.1 hok.2 hnul hs
  | move => exact h.move hs
  | ep l => exact h.ep hok hs
  | reuse mem =>
      obtain ⟨hgone, rfl⟩ := step_reuse hs
      -- the buffer has been freed, so no phase speaks of its bytes
      have hphase : Phase host a content c → Phase host a content { c with rdmaMem := mem } := by
        rintro (hp | hp | hp | hp)
        · exact .inl ⟨hp.pc, hp.sq, hp.arrival, hp.noRead⟩
        · exact .inr (.inl ⟨hp.pc, hp.advertised, hp.wr, hp.sends, hp.queue, hp.idle⟩)
        · obtain ⟨i, hpc⟩ := hp.pc
          simp [hpc, bufferGone] at hgone
        · have hpc := hp.pc
          revert hpc hgone
          cases c.pc <;> simp [LoopPc, bufferGone]
      exact ⟨h.ids.step (N := N) (l := .reuse mem) (by simpa [freshStep, Fresh] using hs), h.qp,
        h.sameHost, h.server, h.sqWr, h.remote, .inl hgone, fun _ => .inl hgone,
        h.phase.imp_right hphase⟩

theorem init_echoInv {size : Nat} {mem : List Byte} {remote : BitVec 64 → Byte}
    (hroom : a.len host ≤ mem.length) :
    EchoInv host a (fun j => remote (a.addr host + BitVec.ofNat 64 j))
      (init host size mem remote) where
  ids := .init host size mem remote
  qp := nofun
  sameHost := rfl
  server := rfl
  sqWr := rfl
  remote _ _ := rfl
  room := .inr hroom
  done := nofun
  phase := .inr (.inl ⟨rfl, rfl, .waiting rfl rfl (show TestState.idle ≤ connected by decide),
    rfl⟩)

end Bytes

/-- **The echo never corrupts the client's buffer.** For every loop bound
and every interleaving, the advertised bytes stay what they were, and
from the completion of the first READ on `rdma_buf` holds them too. -/
theorem echo_preserves {N : Nat} {host : Endian} {size : Nat} {mem : List Byte}
    {remote : BitVec 64 → Byte} {a : RdmaInfo} {c : ServerConfig}
    (hsize : a.len host ≤ size) (hmem : size ≤ mem.length)
    (hnul : ∃ j < a.len host, remote (a.addr host + BitVec.ofNat 64 j) = 0)
    (h : Runs.Reach (step N) (PeerOnce a) (init host size mem remote) c) :
    (∀ j < a.len host, c.remoteMem (a.addr host + BitVec.ofNat 64 j)
        = remote (a.addr host + BitVec.ofNat 64 j)) ∧
      (c.ep.readDone = true → bufferGone c.pc = false →
        ∀ j < a.len host, c.rdmaMem[j]? = some (remote (a.addr host + BitVec.ofNat 64 j))) := by
  have hinv := h.invariant
    (P := EchoInv host a fun j => remote (a.addr host + BitVec.ofNat 64 j))
    (init_echoInv (by omega)) fun _ _ _ ha hok hs =>
      ha.step (fun _ => hnul) hok hs
  exact ⟨hinv.remote, fun hread hgone =>
    (hinv.done hread).resolve_left (by simp [hgone])⟩

/-- The letter `A` and a NUL at address 0. -/
def letter (x : BitVec 64) : Byte := if x = 0 then 65 else 0

/-- The READ of both bytes, then a second iteration whose operations are
all out together. -/
def letterRun : List ServerLabel :=
  startup ⟨0, 0, 2⟩ ++
    [.main .ok, .main .ok, .move, .move, .ep .complete, .ep .cqEnter, .ep (.cqPoll 0),
      .main .ok, .main .ok, .main .ok, .move, .move, .ep .complete, .ep (.cqPoll 0)] ++
    List.replicate 7 (.main .ok) ++ [.move]

theorem echo_letter : ∃ c,
    Runs.Reach (step 2) (PeerOnce ⟨0, 0, 2⟩) (init .big 64 (List.replicate 64 0) letter) c ∧
      c.ep.unhandled = [.rdmaRead, .rdmaWrite] ∧ c.rdmaMem[0]? = some 65 ∧
      c.remoteMem 0 = 65 := by
  obtain ⟨c, hrun, hout, hread, hpc⟩ : ∃ c, Runs.exec (step 2) (PeerOnce ⟨0, 0, 2⟩)
      (init .big 64 (List.replicate 64 0) letter) letterRun = some c ∧
      c.ep.unhandled = [.rdmaRead, .rdmaWrite] ∧ c.ep.readDone = true ∧
      bufferGone c.pc = false := ⟨_, rfl, rfl, rfl, rfl⟩
  have hreach := Runs.reach_of_exec hrun
  obtain ⟨hrem, hbuf⟩ := echo_preserves (by decide) (by simp) ⟨1, by decide, rfl⟩ hreach
  exact ⟨c, hreach, hout, hbuf hread hpc 0 (by decide), hrem 0 (by decide)⟩

end ServerConfig

end MegaVM
