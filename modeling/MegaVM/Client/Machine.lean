import MegaVM.Client.Program
import MegaVM.Lib.Runs

/-!
# The client as a labelled machine

The client's end of the connection together with its main thread. The
HCA moves one byte of the oldest SEND at a time; the client posts nothing
else. Its buffers are the peer's memory of the server, so their content
is no part of this machine.
-/

namespace MegaVM

open TestState

structure ClientConfig where
  ep : Endpoint
  pc : ClientPc

inductive ClientLabel
  | main (inp : MainIn)
  /-- The HCA moves one byte of the oldest work request. -/
  | move
  | ep (l : EpLabel)
  deriving DecidableEq, Repr

/-- One byte of the oldest SEND; an end that only sends moves no other. -/
def Endpoint.sendByte (e : Endpoint) : Option Endpoint :=
  match e.sq with
  | [] => none
  | p :: rest =>
      if e.qpErr ∨ p.wr.opcode ≠ .send ∨ p.sge.length.toNat ≤ p.moved then none
      else some { e with sq := { p with moved := p.moved + 1 } :: rest }

theorem Endpoint.sendByte_eq_some {e e' : Endpoint} (h : e.sendByte = some e') :
    ∃ p rest, e.sq = p :: rest ∧ e.qpErr = false ∧ p.wr.opcode = .send ∧
      p.moved < p.sge.length.toNat ∧
      e' = { e with sq := { p with moved := p.moved + 1 } :: rest } := by
  simp only [sendByte] at h
  split at h
  · cases h
  · rename_i p rest hsq
    split at h
    · cases h
    · rename_i hg
      simp only [not_or, Bool.not_eq_true, not_not, Nat.not_le] at hg
      cases h
      exact ⟨p, rest, hsq, hg.1, hg.2.1, hg.2.2, rfl⟩

/-! ## An end that only sends -/

/-- An end that only sends, and does not read. -/
structure SendsOnly (e : Endpoint) : Prop where
  sends : ∀ p ∈ e.sq, p.wr.opcode = .send
  reads : ∀ wc ∈ e.cq.queue, wc.opcode ≠ .rdmaRead

/-- The client's poll loop lowers `state` to nothing a wait of the client
tests. -/
theorem drainOne_client {bound : TestState} {cb : IbContext} {wc : Wc} (ret : Int)
    (hop : wc.opcode ≠ .rdmaRead) (hbound : bound ≤ rdmaWriteAdv) (hst : bound ≤ cb.state) :
    bound ≤ (drainOne clientHook cb wc ret).cb.state := by
  have habove : ∀ s : TestState, rdmaWriteAdv ≤ s → bound ≤ s := fun _ hs =>
    Nat.le_trans hbound hs
  unfold drainOne
  cases wc.status with
  | wrFlushErr => exact hst
  | failure => exact habove error (by decide)
  | success =>
      cases h : wc.opcode with
      | send => exact hst
      | rdmaWrite => exact habove rdmaWriteComplete (by decide)
      | rdmaRead => exact absurd h hop
      | other => exact habove error (by decide)
      | recv =>
          have hrecv : bound ≤ (if cb.state = rdmaReadAdv then rdmaWriteAdv
              else rdmaWriteComplete) := by
            split
            · exact hbound
            · exact habove rdmaWriteComplete (by decide)
          have herr : bound ≤ error := habove error (by decide)
          dsimp only [clientHook, clientRecv]
          by_cases hserver : cb.server = 0 <;> by_cases hlen : wc.byteLen = sizeofRdmaInfo <;>
            by_cases hret : ret = 0 <;>
            simp only [hserver, hlen, hret, gotoError, ne_eq, not_true_eq_false,
              not_false_eq_true, if_true, if_false, reduceCtorEq, Int.reduceNeg] <;>
            first | exact hrecv | exact herr

/-- The completion of a SEND is one of a SEND. -/
theorem SendsOnly.retire {e : Endpoint} {p : Posted} {rest : List Posted} (h : SendsOnly e)
    (hp : e.sq = p :: rest) (status : WcStatus) : SendsOnly (e.retire p rest status) := by
  refine ⟨fun q hq => h.sends q (by simp [hp, show q ∈ rest from hq]), ?_⟩
  intro wc hwc
  simp only [Endpoint.retire, Cq.add_queue, List.mem_append, List.mem_singleton] at hwc
  rcases hwc with hwc | rfl
  · exact h.reads wc hwc
  · simp [h.sends p (by simp [hp]), WrOpcode.wc]

theorem SendsOnly.add_recv {e : Endpoint} (h : SendsOnly e) {wc : Wc} (hop : wc.opcode = .recv) :
    ∀ w ∈ (e.cq.add wc).queue, w.opcode ≠ .rdmaRead := by
  intro w hw
  simp only [Cq.add_queue, List.mem_append, List.mem_singleton] at hw
  rcases hw with hw | rfl
  · exact h.reads w hw
  · simp [hop]

/-- A move of the client's end keeps what ends its waits. -/
theorem SendsOnly.step {e e' : Endpoint} {l : EpLabel} (h : SendsOnly e)
    (hcm : ∀ event id ret, l ≠ .cm event id ret) (hs : e.step clientHook l = some e') :
    SendsOnly e' ∧
      ∀ bound, bound ≤ rdmaWriteAdv → bound ≤ e.cb.state → bound ≤ e'.cb.state := by
  have hsame : e'.cb.state = e.cb.state →
      ∀ bound, bound ≤ rdmaWriteAdv → bound ≤ e.cb.state → bound ≤ e'.cb.state := by
    intro heq bound _ hst
    rw [heq]
    exact hst
  cases l with
  | cm event id ret => exact absurd rfl (hcm event id ret)
  | cqEnter =>
      obtain ⟨-, -, rfl⟩ := Endpoint.step_cqEnter hs
      exact ⟨⟨h.sends, h.reads⟩, hsame rfl⟩
  | cqPoll ret =>
      obtain ⟨-, ⟨-, rfl⟩ | ⟨wc, rest, hhead, rfl⟩⟩ := Endpoint.step_poll hs
      · exact ⟨⟨h.sends, h.reads⟩, hsame rfl⟩
      · exact ⟨⟨h.sends, fun w hw => h.reads w (by simp [hhead, show w ∈ rest from hw])⟩,
          fun _ => drainOne_client ret (h.reads wc (by simp [hhead]))⟩
  | cqPollErr =>
      obtain ⟨-, rfl⟩ := Endpoint.step_cqPollErr hs
      exact ⟨⟨h.sends, h.reads⟩, fun bound hbound _ =>
        Nat.le_trans hbound (by decide : rdmaWriteAdv ≤ error)⟩
  | complete =>
      obtain ⟨p, rest, hp, -, -, rfl⟩ := Endpoint.step_complete hs
      exact ⟨h.retire hp _, hsame rfl⟩
  | fail =>
      obtain ⟨p, rest, hp, -, rfl⟩ := Endpoint.step_fail hs
      have honly := h.retire hp .failure
      exact ⟨⟨honly.sends, honly.reads⟩, hsame rfl⟩
  | flush =>
      obtain ⟨p, rest, hp, -, rfl⟩ := Endpoint.step_flush hs
      exact ⟨h.retire hp _, hsame rfl⟩
  | land buf byteLen status =>
      obtain ⟨-, -, rfl⟩ := Endpoint.step_land hs
      exact ⟨⟨h.sends, h.add_recv rfl⟩, hsame rfl⟩
  | flushRecv =>
      obtain ⟨-, -, rfl⟩ := Endpoint.step_flushRecv hs
      exact ⟨⟨h.sends, h.add_recv rfl⟩, hsame rfl⟩
  | breakQp =>
      simp only [Endpoint.step, Option.some.injEq] at hs
      subst hs
      exact ⟨⟨h.sends, h.reads⟩, hsame rfl⟩

theorem SendsOnly.sendByte {e e' : Endpoint} (h : SendsOnly e) (hs : e.sendByte = some e') :
    SendsOnly e' ∧ e'.cb = e.cb := by
  obtain ⟨p, rest, hp, -, hop, -, rfl⟩ := Endpoint.sendByte_eq_some hs
  refine ⟨⟨?_, h.reads⟩, rfl⟩
  intro q hq
  rcases List.mem_cons.mp hq with rfl | hq
  · exact hop
  · exact h.sends q (by simp [hp, hq])

theorem SendsOnly.postSend {e : Endpoint} (h : SendsOnly e) {wr : SendWr}
    (hop : wr.opcode = .send) (sge : Sge) (ret : Int) : SendsOnly (e.postSend wr sge ret) := by
  by_cases hret : ret = 0
  · simp only [Endpoint.postSend, hret, if_true]
    refine ⟨fun p hp => ?_, h.reads⟩
    rcases List.mem_append.mp hp with hp | hp
    · exact h.sends p hp
    · rw [List.mem_singleton.mp hp]
      exact hop
  · simp only [Endpoint.postSend, hret, if_false]
    exact ⟨h.sends, h.reads⟩

theorem SendsOnly.call {e e' : Endpoint} {inp : MainIn} {cb : IbContext} {call : Call}
    (h : SendsOnly e) (hpost : ∀ wr sge, call ≠ .postSend wr sge)
    (hc : Endpoint.call inp { e with cb := cb } call = some e') : SendsOnly e' := by
  cases call with
  | postSend wr sge => exact absurd rfl (hpost wr sge)
  | destroyQp =>
      simp only [Endpoint.call, Endpoint.destroyQp] at hc
      split at hc <;> cases hc
      exact ⟨by simp, by simp [Cq.empty]⟩
  | _ =>
      simp only [Endpoint.call, Option.some.injEq] at hc
      subst hc
      exact ⟨h.sends, h.reads⟩

namespace ClientConfig

/-- The state in which `megaVM_doit` calls `megaVM_run_client`. -/
def init (host : Endian) (size : Nat) : ClientConfig :=
  ⟨.init (.init host 0 size), .resolveAddr⟩

/-- From `megaVM_bind_client` to the set-up of the queue pair. -/
def setup : List ClientLabel :=
  [.main .ok, .ep (.cm .addrResolved 1 0), .ep (.cm .routeResolved 1 0), .main .ok, .main .ok,
    .main .ok]

/-- The CM delivers events until the context is freed. -/
def cmOpen (c : ClientConfig) : EpLabel → Bool
  | .cm _ _ _ => c.pc != .freed
  | _ => true

def step (c : ClientConfig) : ClientLabel → Option ClientConfig
  | .main inp =>
      (clientMain inp c.ep.cb c.pc).bind fun (cb, pc, call) =>
        (Endpoint.call inp { c.ep with cb := cb } call).map fun ep => ⟨ep, pc⟩
  | .move => c.ep.sendByte.map fun ep => { c with ep := ep }
  | .ep l =>
      if c.cmOpen l then (c.ep.step clientHook l).map fun ep => { c with ep := ep } else none

/-! ## Inversion of a step -/

theorem step_main {c c' : ClientConfig} {inp : MainIn} (h : c.step (.main inp) = some c') :
    ∃ cb call, clientMain inp c.ep.cb c.pc = some (cb, c'.pc, call) ∧
      Endpoint.call inp { c.ep with cb := cb } call = some c'.ep := by
  simp only [step, Option.bind_eq_some_iff] at h
  obtain ⟨⟨cb, pc, call⟩, hm, hcall⟩ := h
  obtain ⟨ep, he, rfl⟩ := Option.map_eq_some_iff.mp hcall
  exact ⟨cb, call, hm, he⟩

theorem step_main_eq {c : ClientConfig} {inp : MainIn} {cb : IbContext} {pc : ClientPc}
    {call : Call} {ep : Endpoint} (hm : clientMain inp c.ep.cb c.pc = some (cb, pc, call))
    (he : Endpoint.call inp { c.ep with cb := cb } call = some ep) :
    c.step (.main inp) = some ⟨ep, pc⟩ := by
  simp only [step, hm, Option.bind_some]
  exact Option.map_eq_some_iff.mpr ⟨ep, he, rfl⟩

theorem step_ep_eq {c : ClientConfig} {l : EpLabel} {ep : Endpoint} (hopen : c.cmOpen l = true)
    (he : c.ep.step clientHook l = some ep) : c.step (.ep l) = some ⟨ep, c.pc⟩ := by
  rw [step, if_pos hopen, he]
  rfl

theorem step_move {c c' : ClientConfig} (h : c.step .move = some c') :
    ∃ p rest, c.ep.sq = p :: rest ∧
      c' = { c with ep := { c.ep with sq := { p with moved := p.moved + 1 } :: rest } } := by
  obtain ⟨ep, he, rfl⟩ := Option.map_eq_some_iff.mp h
  obtain ⟨p, rest, hsq, -, -, -, rfl⟩ := Endpoint.sendByte_eq_some he
  exact ⟨p, rest, hsq, rfl⟩

theorem step_ep {c c' : ClientConfig} {l : EpLabel} (h : c.step (.ep l) = some c') :
    c.cmOpen l = true ∧ ∃ ep, c.ep.step clientHook l = some ep ∧ c' = { c with ep := ep } := by
  simp only [step] at h
  split at h
  · rename_i ho
    obtain ⟨ep, he, rfl⟩ := Option.map_eq_some_iff.mp h
    exact ⟨ho, ep, he, rfl⟩
  · cases h

end ClientConfig

end MegaVM
