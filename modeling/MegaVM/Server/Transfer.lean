import MegaVM.Server.Machine

/-!
# Adverts, transfers and strings

What the proofs about the transferred bytes share: the address and the
length an advertisement decodes to, the bytes `strlen` stops at, and
what has been seen on the completion queue.
-/

namespace MegaVM

open TestState

/-- The address the server decodes from an advertisement. -/
def RdmaInfo.addr (host : Endian) (a : RdmaInfo) : BitVec 64 := ntohll host a.buf

/-- The length the server decodes from an advertisement. -/
def RdmaInfo.len (host : Endian) (a : RdmaInfo) : Nat := (ntohl host a.size).toNat

theorem RdmaInfo.len_lt (host : Endian) (a : RdmaInfo) : a.len host < 2 ^ 32 :=
  (ntohl host a.size).isLt

/-- `server_recv` has decoded the advertisement in `recv_buf`. -/
structure Decoded (host : Endian) (a : RdmaInfo) (cb : IbContext) : Prop where
  buf : cb.recvBuf = a
  addr : cb.remoteAddr = a.addr host
  len : cb.remoteLen = ntohl host a.size

/-- Decoding the same advertisement again changes nothing. -/
theorem Decoded.drainOne {host : Endian} {a : RdmaInfo} {cb : IbContext}
    (h : Decoded host a cb) (hhost : cb.host = host) (wc : Wc) (ret : Int) :
    Decoded host a (drainOne serverHook cb wc ret).cb := by
  obtain ⟨hbuf, haddr, hlen⟩ := h
  unfold MegaVM.drainOne
  cases wc.status with
  | wrFlushErr | failure => exact ⟨hbuf, haddr, hlen⟩
  | success =>
      cases wc.opcode with
      | send | rdmaWrite | rdmaRead | other => exact ⟨hbuf, haddr, hlen⟩
      | recv =>
          dsimp only [serverHook, serverRecv]
          by_cases hsrv : cb.server = 0
          · by_cases hret : ret = 0 <;> simp only [hsrv, hret, ne_eq, not_true_eq_false,
              not_false_eq_true, if_true, if_false, gotoError] <;> exact ⟨hbuf, haddr, hlen⟩
          · by_cases hb : wc.byteLen = sizeofRdmaInfo
            · by_cases hret : ret = 0 <;> simp only [hsrv, hb, hret, ne_eq, not_true_eq_false,
                not_false_eq_true, if_true, if_false, gotoError] <;>
                exact ⟨hbuf, by simp only [hhost, hbuf]; rfl, by simp only [hhost, hbuf]⟩
            · simp only [hsrv, hb, ne_eq, not_false_eq_true, if_true, gotoError,
                reduceCtorEq, Int.reduceNeg]
              exact ⟨hbuf, haddr, hlen⟩

/-- While only this advertisement comes in, it stays the decoded one. -/
theorem Decoded.step {host : Endian} {a : RdmaInfo} {e e' : Endpoint} {l : EpLabel}
    (h : Decoded host a e.cb) (hhost : e.cb.host = host)
    (hland : ∀ buf byteLen status, l = .land buf byteLen status → buf = a)
    (hs : e.step serverHook l = some e') : Decoded host a e'.cb := by
  by_cases hcm : ∃ event id ret, l = .cm event id ret
  · obtain ⟨event, id, ret, rfl⟩ := hcm
    simp only [Endpoint.step, Option.some.injEq] at hs
    subst hs
    obtain ⟨hbuf, haddr, hlen⟩ := h
    simp only [Endpoint.cm]
    cases event with
    | established =>
        simp only [cmaEventHandler]
        split <;> exact ⟨hbuf, haddr, hlen⟩
    | _ => exact ⟨hbuf, haddr, hlen⟩
  · push Not at hcm
    by_cases hp : ∃ ret, l = .cqPoll ret
    · obtain ⟨ret, rfl⟩ := hp
      obtain ⟨-, ⟨-, rfl⟩ | ⟨wc, rest, -, rfl⟩⟩ := Endpoint.step_poll hs
      · exact h
      · exact h.drainOne hhost wc ret
    · push Not at hp
      by_cases he : l = .cqPollErr
      · subst he
        obtain ⟨-, rfl⟩ := Endpoint.step_cqPollErr hs
        exact ⟨h.buf, h.addr, h.len⟩
      · by_cases hl : ∃ buf byteLen status, l = .land buf byteLen status
        · obtain ⟨buf, byteLen, status, rfl⟩ := hl
          obtain ⟨-, -, rfl⟩ := Endpoint.step_land hs
          exact ⟨hland buf byteLen status rfl, h.addr, h.len⟩
        · push Not at hl
          rw [Endpoint.step_cb_eq hs hcm hp he hl]
          exact h

/-! ## Strings -/

/-- A NUL bounds `strlen`. -/
theorem strlen_le {mem : List Byte} {j : Nat} (h : mem[j]? = some 0) :
    ∃ n, strlen mem = some n ∧ n ≤ j := by
  obtain ⟨hj, hz⟩ := List.getElem?_eq_some_iff.mp h
  cases hlen : strlen mem with
  | none =>
      have := List.findIdx?_eq_none_iff.mp hlen mem[j] (List.getElem_mem hj)
      simp [hz] at this
  | some n =>
      refine ⟨n, rfl, ?_⟩
      by_contra hlt
      obtain ⟨hn, -, hbefore⟩ := List.findIdx?_eq_some_iff_getElem.mp hlen
      have := hbefore j (by omega)
      simp [hz] at this

/-- `strlen` stops at the first NUL. -/
theorem strlen_eq_some {mem : List Byte} {n : Nat} (h : strlen mem = some n) :
    mem[n]? = some 0 ∧ ∀ j < n, mem[j]? ≠ some 0 := by
  obtain ⟨hn, hz, hbefore⟩ := List.findIdx?_eq_some_iff_getElem.mp h
  refine ⟨by rw [List.getElem?_eq_getElem hn]; simpa using hz, ?_⟩
  intro j hj hzero
  rw [List.getElem?_eq_getElem (by omega)] at hzero
  have := hbefore j hj
  simp_all

/-! ## Completions seen -/

namespace Endpoint

/-- A completion of this kind waits in the queue or has been polled. -/
def seen (p : Wc → Bool) (e : Endpoint) : Bool :=
  e.cq.queue.any p || e.log.any fun
    | .handled wc => p wc
    | _ => false

/-- The advertisement has come in. -/
def received (e : Endpoint) : Bool := e.seen (·.opcode == .recv)

/-- An RDMA READ has completed. -/
def readDone (e : Endpoint) : Bool :=
  e.seen fun wc => wc.status == .success && wc.opcode == .rdmaRead

theorem seen_retire (p : Wc → Bool) (e : Endpoint) (q : Posted) (rest : List Posted)
    (status : WcStatus) :
    (e.retire q rest status).seen p = (e.seen p || p ⟨status, q.wr.opcode.wc, q.sge.length⟩) := by
  simp only [seen, retire, Cq.add_queue, List.any_append, List.any_cons, List.any_nil,
    Bool.or_false]
  grind

theorem seen_poll {p : Wc → Bool} {e e' : Endpoint} {wc : Wc} {rest : List Wc}
    (hq : e.cq.queue = wc :: rest) (hq' : e'.cq.queue = rest)
    (hlog : e'.log = .handled wc :: e.log) : e'.seen p = e.seen p := by
  simp only [seen, hq, hq', hlog, List.any_cons]
  grind

/-- A call makes no completion; the destruction of the completion queue
forgets those not polled. -/
theorem seen_call {p : Wc → Bool} {inp : MainIn} {e e' : Endpoint} {call : Call}
    (h : e.call inp call = some e') (hcall : call ≠ .destroyQp) : e'.seen p = e.seen p := by
  cases call with
  | postSend wr sge =>
      simp only [Endpoint.call, Option.some.injEq] at h
      subst h
      by_cases hret : inp.ret = 0 <;> simp [seen, postSend, hret]
  | destroyQp => exact absurd rfl hcall
  | _ =>
      simp only [Endpoint.call, Option.some.injEq] at h
      subst h
      simp [seen, Cq.reqNotify]

theorem seen_of_call {p : Wc → Bool} {inp : MainIn} {e e' : Endpoint} {call : Call}
    (h : e.call inp call = some e') (hseen : e'.seen p = true) : e.seen p = true := by
  by_cases hcall : call = .destroyQp
  · subst hcall
    simp only [Endpoint.call, destroyQp] at h
    split at h <;> cases h
    simp only [seen, Cq.empty, List.any_nil, Bool.false_or] at hseen
    simp only [seen, hseen, Bool.or_true]
  · rwa [seen_call h hcall] at hseen

end Endpoint

namespace ServerConfig

/-! ## The loop -/

/-- The loop, and what follows it up to `rdma_disconnect`. -/
def LoopPc : ServerPc → Bool
  | .readSet _ | .readPost _ | .readWait _ | .writeSet _ | .writePost _ | .writeWait _
  | .goAhead | .disconnect => true
  | _ => false

/-- The posts of the RDMA loop. -/
def RdmaPost : ServerPc → Bool
  | .readPost _ | .writePost _ => true
  | _ => false

/-- The work request about to be posted stays in the advertised buffer. -/
def WrReady (host : Endian) (a : RdmaInfo) (f : MainFields) : ServerPc → Prop
  | .readPost _ =>
      f.rdmaSqWr.opcode = .rdmaRead ∧ f.rdmaSqWr.remoteAddr = a.addr host ∧
        f.rdmaSgl.length.toNat = a.len host
  | .writePost _ =>
      f.rdmaSqWr.opcode = .rdmaWrite ∧ f.rdmaSqWr.remoteAddr = a.addr host ∧
        f.rdmaSgl.length.toNat ≤ a.len host
  | _ => True

/-- The points at which the queue pair exists. -/
def Built : ServerPc → Bool
  | .bindAddr | .listen | .bindWait | .bindTest | .setupQp | .destroyChild
  | .destroyListener | .freed => false
  | _ => true

/-- What every statement of the main thread keeps. -/
theorem serverMain_base {N : Nat} {inp : MainIn} {len : Option Nat} {cb cb' : IbContext}
    {pc pc' : ServerPc} {call : Call} (h : serverMain N len inp cb pc = some (cb', pc', call)) :
    cb'.host = cb.host ∧ cb'.server = cb.server ∧
      (cb.sqWr.opcode = .send → cb'.sqWr.opcode = .send) ∧
      (bufferGone pc = true → bufferGone pc' = true) ∧
      ((Built pc = true → cb.qp = cb.childCmId) → Built pc' = true → cb'.qp = cb'.childCmId) := by
  cases serverMain_move h <;> refine ⟨rfl, rfl, ?_, ?_, ?_⟩ <;>
    simp [bufferGone, Built, setupWr, setupSendRecv, setRead, setWrite]

/-- No step changes the kind of the module. -/
theorem step_server {N : Nat} {c c' : ServerConfig} {l : ServerLabel}
    (hs : c.step N l = some c') : c'.ep.cb.server = c.ep.cb.server := by
  cases l with
  | main inp =>
      obtain ⟨cb, call, hm, hcall, -, -⟩ := step_main_call hs
      rw [Endpoint.call_cb hcall]
      exact (serverMain_base hm).2.1
  | move =>
      obtain ⟨p, rest, -, -, -, hep, -⟩ := step_move hs
      rw [hep]
  | ep l =>
      obtain ⟨-, ep, he, rfl⟩ := step_ep hs
      exact congrArg MainFields.server (Endpoint.step_mainFields serverHook_framed he)
  | reuse mem =>
      obtain ⟨-, rfl⟩ := step_reuse hs
      rfl

/-- Offsets below `2 ^ 32` do not wrap into each other. -/
theorem offset_inj {x : BitVec 64} {j k : Nat} (hj : j < 2 ^ 32) (hk : k < 2 ^ 32)
    (h : x + BitVec.ofNat 64 j = x + BitVec.ofNat 64 k) : j = k := by
  have htoNat := congrArg BitVec.toNat h
  rw [BitVec.toNat_add, BitVec.toNat_add, BitVec.toNat_ofNat, BitVec.toNat_ofNat] at htoNat
  omega

end ServerConfig

end MegaVM
