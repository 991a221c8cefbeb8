import Mathlib.Logic.Function.Basic
import MegaVM.Endpoint
import MegaVM.Server.Program
import MegaVM.Lib.Runs

/-!
# The server as a labelled machine

The server's end of the connection together with its main thread, the
memory from `rdma_buf` on and the peer's memory. The HCA moves one byte
of the oldest work request at a time: an RDMA READ copies from the
peer's memory to `rdma_buf`, an RDMA WRITE copies back. Nothing stops it
at the end of either buffer, because the DMA memory region covers all of
memory.

`rdmaMem` holds the bytes from `rdma_buf` to the end of mapped memory,
so its length is at least `size`; `strlen` that meets no NUL in it faults.
-/

namespace MegaVM

open TestState

structure ServerConfig where
  ep : Endpoint
  pc : ServerPc
  /-- `rdma_listen` has succeeded and the listening id is alive. -/
  listening : Bool
  rdmaMem : List Byte
  remoteMem : BitVec 64 → Byte

inductive ServerLabel
  | main (inp : MainIn)
  /-- The HCA moves one byte of the oldest work request. -/
  | move
  | ep (l : EpLabel)
  /-- Somebody else uses the memory after `kfree(cb->rdma_buf)`. -/
  | reuse (mem : List Byte)
  deriving DecidableEq, Repr

/-- `strlen` over the mapped memory. -/
def strlen (mem : List Byte) : Option Nat := mem.findIdx? (· == 0)

namespace ServerConfig

/-- The state in which `initialisation` calls `megaVM_StartServer`. -/
def init (host : Endian) (size : Nat) (mem : List Byte) (remote : BitVec 64 → Byte) :
    ServerConfig :=
  ⟨.init (.init host 1 size), .bindAddr, false, mem, remote⟩

/-- A server with a zeroed 64-byte buffer. -/
def boot : ServerConfig := init .big 64 (List.replicate 64 0) fun _ => 0

/-- From `bind_server` to the end of the first wait of
`start_MegaVM_server`: one request, the set-up, the accept and one
advertisement. -/
def startup (a : RdmaInfo) : List ServerLabel :=
  [.main .ok, .main .ok, .ep (.cm .connectRequest 1 0), .main .ok, .main .ok, .main .ok,
    .main .ok, .main .ok, .main .ok, .ep (.land a 16 .success), .ep .cqEnter,
    .ep (.cqPoll 0), .ep (.cqPoll 0), .main .ok, .main .ok, .main .ok]

/-- The effect of a call of the main thread. -/
def applyCall (inp : MainIn) (c : ServerConfig) (call : Call) : Option ServerConfig :=
  (c.ep.call inp call).map fun ep =>
    { c with
      ep := ep
      listening := match call with
        | .listen => true
        | .destroyListener => false
        | _ => c.listening }

/-- One byte of the oldest work request. -/
def moveByte (c : ServerConfig) : Option ServerConfig :=
  match c.ep.sq with
  | [] => none
  | p :: rest =>
      if c.ep.qpErr ∨ p.sge.length.toNat ≤ p.moved then none
      else
        let ep := { c.ep with sq := { p with moved := p.moved + 1 } :: rest }
        let there := p.wr.remoteAddr + BitVec.ofNat 64 p.moved
        match p.wr.opcode with
        | .rdmaRead =>
            some { c with ep := ep, rdmaMem := c.rdmaMem.set p.moved (c.remoteMem there) }
        | .rdmaWrite =>
            some { c with
              ep := ep
              remoteMem := Function.update c.remoteMem there (c.rdmaMem.getD p.moved 0) }
        | .send => some { c with ep := ep }

/-- The CM delivers events until the context is freed, and requests only
to a listening id. -/
def cmOpen (c : ServerConfig) : EpLabel → Bool
  | .cm .connectRequest _ _ => c.listening
  | .cm _ _ _ => c.pc != .freed
  | _ => true

/-- `megaVM_free_buffers` has run, or the buffer was never allocated. -/
def bufferGone : ServerPc → Bool
  | .freeQp | .destroyChild | .destroyListener | .freed => true
  | _ => false

def step (N : Nat) (c : ServerConfig) : ServerLabel → Option ServerConfig
  | .main inp =>
      (serverMain N (strlen c.rdmaMem) inp c.ep.cb c.pc).bind fun (cb, pc, call) =>
        applyCall inp { c with ep := { c.ep with cb := cb }, pc := pc } call
  | .move => c.moveByte
  | .ep l =>
      if c.cmOpen l then (c.ep.step serverHook l).map fun ep => { c with ep := ep } else none
  | .reuse mem => if bufferGone c.pc then some { c with rdmaMem := mem } else none

/-- The steps of a run. -/
abbrev History := List (ServerConfig × ServerLabel × ServerConfig)

/-! ## Inversion of a step -/

theorem step_main {N : Nat} {c c' : ServerConfig} {inp : MainIn}
    (h : step N c (.main inp) = some c') :
    ∃ cb pc call, serverMain N (strlen c.rdmaMem) inp c.ep.cb c.pc = some (cb, pc, call) ∧
      applyCall inp { c with ep := { c.ep with cb := cb }, pc := pc } call = some c' := by
  simp only [step, Option.bind_eq_some_iff] at h
  obtain ⟨⟨cb, pc, call⟩, hm, hc⟩ := h
  exact ⟨cb, pc, call, hm, hc⟩

theorem step_ep {N : Nat} {c c' : ServerConfig} {l : EpLabel}
    (h : step N c (.ep l) = some c') :
    c.cmOpen l = true ∧ ∃ ep, c.ep.step serverHook l = some ep ∧ c' = { c with ep := ep } := by
  simp only [step] at h
  split at h
  · rename_i ho
    simp only [Option.map_eq_some_iff] at h
    obtain ⟨ep, he, rfl⟩ := h
    exact ⟨ho, ep, he, rfl⟩
  · cases h

theorem step_reuse {N : Nat} {c c' : ServerConfig} {mem : List Byte}
    (h : step N c (.reuse mem) = some c') :
    bufferGone c.pc = true ∧ c' = { c with rdmaMem := mem } := by
  simp only [step] at h
  split at h
  · cases h
    exact ⟨‹_›, rfl⟩
  · cases h

/-- A moved byte changes one byte of one memory and the progress of the
oldest work request. -/
theorem step_move {N : Nat} {c c' : ServerConfig} (h : step N c .move = some c') :
    ∃ p rest, c.ep.sq = p :: rest ∧ c.ep.qpErr = false ∧ p.moved < p.sge.length.toNat ∧
      c'.ep = { c.ep with sq := { p with moved := p.moved + 1 } :: rest } ∧
      c'.pc = c.pc ∧ c'.listening = c.listening ∧
      c'.rdmaMem = (if p.wr.opcode = .rdmaRead then
        c.rdmaMem.set p.moved (c.remoteMem (p.wr.remoteAddr + BitVec.ofNat 64 p.moved))
        else c.rdmaMem) ∧
      c'.remoteMem = (if p.wr.opcode = .rdmaWrite then
        Function.update c.remoteMem (p.wr.remoteAddr + BitVec.ofNat 64 p.moved)
          (c.rdmaMem.getD p.moved 0)
        else c.remoteMem) := by
  simp only [step, moveByte] at h
  cases hsq : c.ep.sq with
  | nil => simp [hsq] at h
  | cons p rest =>
    simp only [hsq] at h
    split at h
    · cases h
    · rename_i hg
      simp only [not_or, Bool.not_eq_true, Nat.not_le] at hg
      refine ⟨p, rest, rfl, hg.1, hg.2, ?_⟩
      cases hop : p.wr.opcode <;> simp only [hop, Option.some.injEq] at h <;> subst h <;>
        simp

/-- A step of the main thread: a statement, and its call on the endpoint. -/
theorem step_main_call {N : Nat} {c c' : ServerConfig} {inp : MainIn}
    (h : step N c (.main inp) = some c') :
    ∃ cb call, serverMain N (strlen c.rdmaMem) inp c.ep.cb c.pc = some (cb, c'.pc, call) ∧
      Endpoint.call inp { c.ep with cb := cb } call = some c'.ep ∧
      c'.rdmaMem = c.rdmaMem ∧ c'.remoteMem = c.remoteMem := by
  obtain ⟨cb, pc, call, hm, hcall⟩ := step_main h
  simp only [applyCall, Option.map_eq_some_iff] at hcall
  obtain ⟨ep, he, rfl⟩ := hcall
  exact ⟨cb, call, hm, he, rfl, rfl⟩

/-! ## The steps of the loop, forwards -/

section Forward
variable {N i n : Nat} {c : ServerConfig} {inp : MainIn}

theorem main_readSet (hpc : c.pc = .readSet i) :
    step N c (.main inp) = some { c with
      ep := { c.ep with cb := setRead c.ep.cb }, pc := .readPost i } := by
  simp [step, hpc, serverMain, applyCall, Endpoint.call]

theorem main_readPost (hpc : c.pc = .readPost i) :
    step N c (.main inp) = some { c with
      ep := c.ep.postSend c.ep.cb.rdmaSqWr c.ep.cb.rdmaSgl inp.ret, pc := .readWait i } := by
  simp [step, hpc, serverMain, applyCall, Endpoint.call]

theorem main_readWait (hpc : c.pc = .readWait i)
    (hst : rdmaReadComplete ≤ c.ep.cb.state ∨ inp.signal = true) :
    step N c (.main inp) = some { c with pc := .writeSet i } := by
  simp only [step, hpc, serverMain, waitEvent, if_pos hst]
  rfl

theorem main_writeSet (hpc : c.pc = .writeSet i) (hlen : strlen c.rdmaMem = some n) :
    step N c (.main inp) = some { c with
      ep := { c.ep with cb := setWrite c.ep.cb n }, pc := .writePost i } := by
  simp [step, hpc, hlen, serverMain, applyCall, Endpoint.call]

theorem main_writePost (hpc : c.pc = .writePost i) :
    step N c (.main inp) = some { c with
      ep := c.ep.postSend c.ep.cb.rdmaSqWr c.ep.cb.rdmaSgl inp.ret, pc := .writeWait i } := by
  simp [step, hpc, serverMain, applyCall, Endpoint.call]

theorem main_writeWait (hpc : c.pc = .writeWait i)
    (hst : rdmaWriteComplete ≤ c.ep.cb.state ∨ inp.signal = true) :
    step N c (.main inp) = some { c with pc := loopHead N (i + 1) } := by
  simp only [step, hpc, serverMain, waitEvent, if_pos hst]
  rfl

theorem main_goAhead (hpc : c.pc = .goAhead) :
    step N c (.main inp) = some { c with
      ep := c.ep.postSend c.ep.cb.sqWr c.ep.cb.sendSgl inp.ret, pc := .disconnect } := by
  simp [step, hpc, serverMain, applyCall, Endpoint.call]

theorem main_disconnect (hpc : c.pc = .disconnect) :
    step N c (.main inp) = some { c with
      ep := { c.ep with
        qpErr := c.ep.qpErr || c.ep.cb.childCmId == c.ep.cb.qp
        log := .disconnected c.ep.cb.childCmId :: c.ep.log }
      pc := .freeBuffers } := by
  simp [step, hpc, serverMain, applyCall, Endpoint.call]

/-- A wait that lets the main thread go on changes nothing else. -/
theorem main_wait {c' : ServerConfig} {next : ServerPc} (cond : Prop) [Decidable cond]
    (hs : step N c (.main inp) = some c')
    (hwait : serverMain N (strlen c.rdmaMem) inp c.ep.cb c.pc
      = waitEvent cond inp c.ep.cb next) :
    (cond ∨ inp.signal = true) ∧ c' = { c with pc := next } := by
  obtain ⟨cb, pc, call, hm, hcall⟩ := step_main hs
  rw [hwait, waitEvent_eq_some, Prod.mk.injEq, Prod.mk.injEq] at hm
  obtain ⟨hcond, rfl, rfl, rfl⟩ := hm
  simp only [applyCall, Endpoint.call, Option.map_some, Option.some.injEq] at hcall
  exact ⟨hcond, hcall.symm⟩

end Forward

end ServerConfig

end MegaVM
