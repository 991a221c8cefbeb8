import MegaVM.Client.Machine
import MegaVM.Server.Machine

/-!
# Client and server together

One run of `megaVM_run_client` with one run of `megaVM_StartServer`: both
ends of the connection, both main threads, the CM events on their way to
either end and the SENDs in flight.

The server's side is the machine of `MegaVM.Server.Machine`; its
`remoteMem` is the client's memory. A CM event is queued by the call of
the other end that causes it and is delivered in order; the connection
request is held until the server listens, since `rdma_connect` succeeds.
A SEND that has moved its bytes is put on the wire, lands in a posted
receive of the other end, and completes only then. The end whose peer
has disconnected can find its queue pair in the error state.
-/

namespace MegaVM

open TestState

/-- How far the oldest SEND of an end has come. -/
inductive Wire
  | still
  | flying (msg : RdmaInfo) (len : BitVec 32)
  | landed
  deriving DecidableEq, Repr

structure System where
  server : ServerConfig
  client : ClientConfig
  /-- CM events on their way to the server, oldest first. -/
  toServer : List CmEvent
  toClient : List CmEvent
  /-- The client's SEND. -/
  advert : Wire
  /-- The server's SEND. -/
  goAhead : Wire

inductive SysLabel
  | serverMain (inp : MainIn)
  | clientMain (inp : MainIn)
  /-- The CM delivers the oldest event. -/
  | serverCm
  | clientCm
  /-- A move of an end by itself: its CQ handler or its HCA. -/
  | serverEp (l : EpLabel)
  | clientEp (l : EpLabel)
  /-- The HCA moves a byte. -/
  | serverMove
  | clientMove
  /-- The oldest SEND goes on the wire. -/
  | transmitAdvert
  | transmitGoAhead
  /-- It lands in a posted receive. -/
  | landAdvert
  | landGoAhead
  deriving DecidableEq, Repr

/-- The same bytes as another machine loads them. -/
def RdmaInfo.carry (src dst : Endian) (m : RdmaInfo) : RdmaInfo :=
  if src = dst then m else ⟨bswap64 m.buf, bswap32 m.rkey, bswap32 m.size⟩

/-- The CM event a call causes at the other end. -/
def Call.toPeer : Call → List CmEvent
  | .connect => [.connectRequest]
  | .accept _ => [.established]
  | .disconnect _ => [.disconnected]
  | _ => []

/-- The CM event a call causes at the end that makes it. -/
def Call.toSelf : Call → List CmEvent
  | .resolveAddr => [.addrResolved]
  | _ => []

/-- `rdma_resolve_route`, called by the handler of `ADDR_RESOLVED`. -/
def CmEvent.toSelf : CmEvent → List CmEvent
  | .addrResolved => [.routeResolved]
  | _ => []

/-- A client whose connection is established tells the server. -/
def CmEvent.toPeer : CmEvent → List CmEvent
  | .established => [.established]
  | _ => []

/-- The stores of a main thread to the memory at `base`. -/
def Call.store (call : Call) (base : BitVec 64) (mem : BitVec 64 → Byte) : BitVec 64 → Byte :=
  match call with
  | .fill writes =>
      writes.foldl (fun m w => Function.update m (base + BitVec.ofNat 64 w.1) w.2) mem
  | _ => mem

/-- The moves of an end at which nothing fails. -/
def EpLabel.healthy : EpLabel → Prop
  | .cqPoll ret => ret = 0
  | .cqPollErr | .fail => False
  | _ => True

namespace Endpoint

/-- The oldest work request is a SEND. -/
def oldestSend (e : Endpoint) : Bool :=
  match e.sq with
  | p :: _ => p.wr.opcode == .send
  | [] => false

/-- The oldest SEND goes on the wire when all its bytes have moved. -/
def transmit (e : Endpoint) : Wire → Option Wire
  | .still =>
      match e.sq with
      | [] => none
      | p :: _ =>
          if e.qpErr ∨ p.wr.opcode ≠ .send ∨ p.moved < p.sge.length.toNat then none
          else some (.flying e.cb.sendBuf p.sge.length)
  | .flying _ _ | .landed => none

/-- The moves an end makes by itself: a SEND completes when it has
landed, and the queue pair breaks when the peer is gone. -/
def mayMove (e : Endpoint) (wire : Wire) (peerGone : Bool) : EpLabel → Bool
  | .cm _ _ _ | .land _ _ _ => false
  | .complete => !e.oldestSend || wire == .landed
  | .breakQp => peerGone
  | .cqEnter | .cqPoll _ | .cqPollErr | .fail | .flush | .flushRecv => true

/-- The wire after a move: free again when the SEND completes. -/
def wireAfter (e : Endpoint) (wire : Wire) : EpLabel → Wire
  | .complete => if e.oldestSend then .still else wire
  | _ => wire

end Endpoint

namespace System

/-- The id of the connection at the server. -/
def childId : CmId := 2

/-- `context->size` of both modules. -/
def bufSize : Nat := 64

/-- The state in which both modules call their run functions. -/
def init (client server : Endian) (mem : List Byte) (remote : BitVec 64 → Byte) : System where
  server := .init server bufSize mem remote
  client := .init client bufSize
  toServer := []
  toClient := []
  advert := .still
  goAhead := .still

def step (N : Nat) (s : System) : SysLabel → Option System
  | .serverMain inp =>
      match MegaVM.serverMain N (strlen s.server.rdmaMem) inp s.server.ep.cb s.server.pc with
      | none => none
      | some (_, _, call) =>
          (s.server.step N (.main inp)).map fun server =>
            { s with server := server, toClient := s.toClient ++ call.toPeer }
  | .clientMain inp =>
      match MegaVM.clientMain inp s.client.ep.cb s.client.pc with
      | none => none
      | some (cb, pc, call) =>
          (Endpoint.call inp { s.client.ep with cb := cb } call).map fun ep =>
            { s with
              client := ⟨ep, pc⟩
              server := { s.server with
                remoteMem := call.store cb.startDmaAddr s.server.remoteMem }
              toServer := s.toServer ++ call.toPeer
              toClient := s.toClient ++ call.toSelf }
  | .serverCm =>
      match s.toServer with
      | [] => none
      | event :: rest =>
          (s.server.step N (.ep (.cm event childId 0))).map fun server =>
            { s with server := server, toServer := rest }
  | .clientCm =>
      match s.toClient with
      | [] => none
      | event :: rest =>
          if s.client.pc = .freed then none
          else some { s with
            client := ⟨s.client.ep.cm event createdId 0, s.client.pc⟩
            toClient := rest ++ event.toSelf
            toServer := s.toServer ++ event.toPeer }
  | .serverEp l =>
      if s.server.ep.mayMove s.goAhead s.client.ep.qpErr l then
        (s.server.step N (.ep l)).map fun server =>
          { s with server := server, goAhead := s.server.ep.wireAfter s.goAhead l }
      else none
  | .clientEp l =>
      if s.client.ep.mayMove s.advert s.server.ep.qpErr l then
        (s.client.ep.step clientHook l).map fun ep =>
          { s with client := ⟨ep, s.client.pc⟩, advert := s.client.ep.wireAfter s.advert l }
      else none
  | .serverMove => (s.server.step N .move).map fun server => { s with server := server }
  | .clientMove => s.client.ep.sendByte.map fun ep => { s with client := ⟨ep, s.client.pc⟩ }
  | .transmitAdvert =>
      (s.client.ep.transmit s.advert).map fun wire => { s with advert := wire }
  | .transmitGoAhead =>
      (s.server.ep.transmit s.goAhead).map fun wire => { s with goAhead := wire }
  | .landAdvert =>
      match s.advert with
      | .flying msg len =>
          (s.server.step N (.ep (.land (msg.carry s.client.ep.cb.host s.server.ep.cb.host) len
            .success))).map fun server => { s with server := server, advert := .landed }
      | .still | .landed => none
  | .landGoAhead =>
      match s.goAhead with
      | .flying msg len =>
          (s.client.ep.step clientHook (.land (msg.carry s.server.ep.cb.host s.client.ep.cb.host)
            len .success)).map fun ep =>
              { s with client := ⟨ep, s.client.pc⟩, goAhead := .landed }
      | .still | .landed => none

/-- Every call succeeds, no signal arrives, and no completion fails but
by a flush. -/
def Healthy (_ : System) : SysLabel → Prop
  | .serverMain inp | .clientMain inp => inp.ret = 0 ∧ inp.signal = false
  | .serverEp l | .clientEp l => l.healthy
  | _ => True

instance : (l : EpLabel) → Decidable l.healthy
  | .cqPoll ret => inferInstanceAs (Decidable (ret = 0))
  | .cqPollErr | .fail => .isFalse id
  | .cm _ _ _ | .cqEnter | .complete | .flush | .land _ _ _ | .flushRecv | .breakQp =>
      .isTrue trivial

instance (s : System) : (l : SysLabel) → Decidable (Healthy s l)
  | .serverMain inp | .clientMain inp => inferInstanceAs (Decidable (inp.ret = 0 ∧ _))
  | .serverEp l | .clientEp l => inferInstanceAs (Decidable l.healthy)
  | .serverCm | .clientCm | .serverMove | .clientMove | .transmitAdvert | .transmitGoAhead
  | .landAdvert | .landGoAhead => .isTrue trivial

/-- `megaVM_StartServer` has returned. -/
def serverReturned : ServerPc → Bool
  | .destroyListener | .freed => true
  | _ => false

/-- `megaVM_run_client` has returned. -/
def clientReturned : ClientPc → Bool
  | .destroyId | .freed => true
  | _ => false

def Returned (s : System) : Prop :=
  serverReturned s.server.pc = true ∧ clientReturned s.client.pc = true

/-! ## Inversion of a step -/

/-- An end by itself gets no event and no message. -/
theorem mayMove_moves {e : Endpoint} {wire : Wire} {gone : Bool} {l : EpLabel}
    (h : e.mayMove wire gone l = true) : (∀ event id ret, l ≠ .cm event id ret) ∧
      ∀ buf byteLen status, l ≠ .land buf byteLen status := by
  constructor
  · rintro event id ret rfl
    cases h
  · rintro buf byteLen status rfl
    cases h

section Inversion
variable {N : Nat} {s s' : System}

theorem step_serverMain {inp : MainIn} (h : step N s (.serverMain inp) = some s') :
    ∃ cb pc call server,
      MegaVM.serverMain N (strlen s.server.rdmaMem) inp s.server.ep.cb s.server.pc
        = some (cb, pc, call) ∧
      s.server.step N (.main inp) = some server ∧
      s' = { s with server := server, toClient := s.toClient ++ call.toPeer } := by
  simp only [step] at h
  split at h
  · cases h
  · rename_i cb pc call hm
    obtain ⟨server, hs, rfl⟩ := Option.map_eq_some_iff.mp h
    exact ⟨cb, pc, call, server, hm, hs, rfl⟩

theorem step_clientMain {inp : MainIn} (h : step N s (.clientMain inp) = some s') :
    ∃ cb pc call ep,
      MegaVM.clientMain inp s.client.ep.cb s.client.pc = some (cb, pc, call) ∧
      Endpoint.call inp { s.client.ep with cb := cb } call = some ep ∧
      s' = { s with
        client := ⟨ep, pc⟩
        server := { s.server with
          remoteMem := call.store cb.startDmaAddr s.server.remoteMem }
        toServer := s.toServer ++ call.toPeer
        toClient := s.toClient ++ call.toSelf } := by
  simp only [step] at h
  split at h
  · cases h
  · rename_i cb pc call hm
    obtain ⟨ep, he, rfl⟩ := Option.map_eq_some_iff.mp h
    exact ⟨cb, pc, call, ep, hm, he, rfl⟩

theorem step_serverCm (h : step N s .serverCm = some s') :
    ∃ event rest server, s.toServer = event :: rest ∧
      s.server.step N (.ep (.cm event childId 0)) = some server ∧
      s' = { s with server := server, toServer := rest } := by
  simp only [step] at h
  split at h
  · cases h
  · rename_i event rest hev
    obtain ⟨server, hs, rfl⟩ := Option.map_eq_some_iff.mp h
    exact ⟨event, rest, server, hev, hs, rfl⟩

theorem step_clientCm (h : step N s .clientCm = some s') :
    ∃ event rest, s.toClient = event :: rest ∧ s.client.pc ≠ .freed ∧
      s' = { s with
        client := ⟨s.client.ep.cm event createdId 0, s.client.pc⟩
        toClient := rest ++ event.toSelf
        toServer := s.toServer ++ event.toPeer } := by
  simp only [step] at h
  split at h
  · cases h
  · rename_i event rest hev
    split at h
    · cases h
    · cases h
      exact ⟨event, rest, hev, ‹_›, rfl⟩

theorem step_serverEp {l : EpLabel} (h : step N s (.serverEp l) = some s') :
    s.server.ep.mayMove s.goAhead s.client.ep.qpErr l = true ∧
      ∃ server, s.server.step N (.ep l) = some server ∧
        s' = { s with server := server, goAhead := s.server.ep.wireAfter s.goAhead l } := by
  simp only [step] at h
  split at h
  · obtain ⟨server, hs, rfl⟩ := Option.map_eq_some_iff.mp h
    exact ⟨‹_›, server, hs, rfl⟩
  · cases h

theorem step_clientEp {l : EpLabel} (h : step N s (.clientEp l) = some s') :
    s.client.ep.mayMove s.advert s.server.ep.qpErr l = true ∧
      ∃ ep, s.client.ep.step clientHook l = some ep ∧
        s' = { s with
          client := ⟨ep, s.client.pc⟩, advert := s.client.ep.wireAfter s.advert l } := by
  simp only [step] at h
  split at h
  · obtain ⟨ep, he, rfl⟩ := Option.map_eq_some_iff.mp h
    exact ⟨‹_›, ep, he, rfl⟩
  · cases h

theorem step_landAdvert (h : step N s .landAdvert = some s') :
    ∃ msg len server, s.advert = .flying msg len ∧
      s.server.step N (.ep (.land (msg.carry s.client.ep.cb.host s.server.ep.cb.host) len
        .success)) = some server ∧
      s' = { s with server := server, advert := .landed } := by
  simp only [step] at h
  split at h
  · rename_i msg len hw
    obtain ⟨server, hs, rfl⟩ := Option.map_eq_some_iff.mp h
    exact ⟨msg, len, server, hw, hs, rfl⟩
  · cases h
  · cases h

theorem step_landGoAhead (h : step N s .landGoAhead = some s') :
    ∃ msg len ep, s.goAhead = .flying msg len ∧
      s.client.ep.step clientHook (.land (msg.carry s.server.ep.cb.host s.client.ep.cb.host)
        len .success) = some ep ∧
      s' = { s with client := ⟨ep, s.client.pc⟩, goAhead := .landed } := by
  simp only [step] at h
  split at h
  · rename_i msg len hw
    obtain ⟨ep, he, rfl⟩ := Option.map_eq_some_iff.mp h
    exact ⟨msg, len, ep, hw, he, rfl⟩
  · cases h
  · cases h

/-! ## The client on its own -/

/-- A step of the two is a step of the client's machine, or leaves the
client alone. -/
theorem step_client {l : SysLabel} (h : step N s l = some s') :
    s'.client = s.client ∨ ∃ l', s.client.step l' = some s'.client := by
  cases l with
  | serverMain inp =>
      obtain ⟨_, _, _, _, _, _, rfl⟩ := step_serverMain h
      exact Or.inl rfl
  | clientMain inp =>
      obtain ⟨cb, pc, call, ep, hm, he, rfl⟩ := step_clientMain h
      exact Or.inr ⟨.main inp, ClientConfig.step_main_eq hm he⟩
  | serverCm =>
      obtain ⟨_, _, _, _, _, rfl⟩ := step_serverCm h
      exact Or.inl rfl
  | clientCm =>
      obtain ⟨event, rest, -, hpc, rfl⟩ := step_clientCm h
      exact Or.inr ⟨.ep (.cm event createdId 0),
        ClientConfig.step_ep_eq (bne_iff_ne.mpr hpc) rfl⟩
  | serverEp l =>
      obtain ⟨_, _, _, rfl⟩ := step_serverEp h
      exact Or.inl rfl
  | clientEp l =>
      obtain ⟨hmay, ep, he, rfl⟩ := step_clientEp h
      have hopen : s.client.cmOpen l = true := by
        cases l with
        | cm event id ret => exact absurd hmay Bool.false_ne_true
        | _ => rfl
      exact Or.inr ⟨.ep l, ClientConfig.step_ep_eq hopen he⟩
  | serverMove =>
      obtain ⟨_, _, rfl⟩ := Option.map_eq_some_iff.mp h
      exact Or.inl rfl
  | clientMove =>
      obtain ⟨ep, he, rfl⟩ := Option.map_eq_some_iff.mp h
      refine Or.inr ⟨.move, ?_⟩
      rw [ClientConfig.step, he]
      rfl
  | transmitAdvert =>
      obtain ⟨_, _, rfl⟩ := Option.map_eq_some_iff.mp h
      exact Or.inl rfl
  | transmitGoAhead =>
      obtain ⟨_, _, rfl⟩ := Option.map_eq_some_iff.mp h
      exact Or.inl rfl
  | landAdvert =>
      obtain ⟨_, _, _, _, _, rfl⟩ := step_landAdvert h
      exact Or.inl rfl
  | landGoAhead =>
      obtain ⟨msg, len, ep, -, he, rfl⟩ := step_landGoAhead h
      exact Or.inr ⟨.ep (.land (msg.carry s.server.ep.cb.host s.client.ep.cb.host) len .success),
        ClientConfig.step_ep_eq rfl he⟩

/-- **A run of the two is a run of the client's machine**, with the moves
of the server left out. -/
theorem client_reach {ok : System → SysLabel → Prop} {s₀ : System}
    (h : Runs.Reach (step N) ok s₀ s) :
    Runs.Reach ClientConfig.step (fun _ _ => True) s₀.client s.client := by
  induction h with
  | refl => exact .refl
  | tail l _ _ hs ih =>
      rcases step_client hs with heq | ⟨l', hl'⟩
      · exact heq ▸ ih
      · exact .tail l' ih trivial hl'

end Inversion

end System

/-! ## The SEND of an end -/

namespace Endpoint

theorem transmit_eq_some {e : Endpoint} {wire wire' : Wire} (h : e.transmit wire = some wire') :
    ∃ p rest, wire = .still ∧ e.sq = p :: rest ∧ e.qpErr = false ∧ p.wr.opcode = .send ∧
      p.sge.length.toNat ≤ p.moved ∧ wire' = .flying e.cb.sendBuf p.sge.length := by
  cases wire with
  | still =>
      simp only [transmit] at h
      split at h
      · cases h
      · rename_i p rest hsq
        split at h
        · cases h
        · rename_i hg
          simp only [not_or, Bool.not_eq_true, not_not, Nat.not_lt] at hg
          cases h
          exact ⟨p, rest, rfl, hsq, hg.1, hg.2.1, hg.2.2, rfl⟩
  | flying msg len => cases h
  | landed => cases h

end Endpoint

end MegaVM
