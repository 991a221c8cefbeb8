import MegaVM.Endpoint

/-!
# What both main threads are made of

The outcomes of the calls a main thread makes, the calls that have an
effect outside the control block, the wait on `context->sem`, and the
part of `setup_wr` and `megaVM_setup_wr` that is the same in both
modules.
-/

namespace MegaVM

/-- What the set-up of the buffers obtains from the kernel. -/
structure Bufs where
  mr : Mr
  recvDma : BitVec 64
  sendDma : BitVec 64
  rdmaDma : BitVec 64
  /-- Of the client's `start_buf`; the server has none. -/
  startDma : BitVec 64
  deriving DecidableEq, Repr

/-- The outcomes of one main-thread step: what the call it makes
returns, and whether a signal ends the wait it is in. -/
structure MainIn where
  ret : Int
  signal : Bool
  bufs : Bufs
  deriving DecidableEq, Repr

/-- Every call succeeds and no signal arrives. -/
def MainIn.ok : MainIn := ⟨0, false, ⟨⟨1, 1⟩, 0, 0, 0, 0⟩⟩

/-- The call a main-thread step makes, when it has an effect outside the
control block. -/
inductive Call
  | none
  | listen
  | resolveAddr
  | connect
  /-- The stores of the client to `start_buf`. -/
  | fill (writes : List (Nat × Byte))
  | createQp (id : CmId)
  | postRecv
  | accept (id : CmId)
  | postSend (wr : SendWr) (sge : Sge)
  | disconnect (id : CmId)
  | destroyQp
  | destroyId (id : CmId)
  | destroyListener
  deriving DecidableEq, Repr

/-- Blocks 1 and 2 of `setup_wr`, which are `megaVM_setup_wr`. -/
def setupSendRecv (cb : IbContext) (b : Bufs) : IbContext :=
  { cb with
    dmaMr := b.mr
    recvSgl := ⟨b.recvDma, sizeofRdmaInfo, b.mr.lkey⟩
    sendSgl := ⟨b.sendDma, sizeofRdmaInfo, b.mr.lkey⟩
    sqWr := { cb.sqWr with opcode := .send } }

/-- `wait_event_interruptible`: the thread goes on to `next` when the
condition holds or a signal arrives, and is blocked otherwise. -/
def waitEvent {Pc : Type} (cond : Prop) [Decidable cond] (inp : MainIn) (cb : IbContext)
    (next : Pc) : Option (IbContext × Pc × Call) :=
  if cond ∨ inp.signal then some (cb, next, .none) else none

/-- The effect of a call on the end that makes it. The set-up of the queue
pair arms the completion queue it creates; `rdma_disconnect` moves the
queue pair of its id to the error state. -/
def Endpoint.call (inp : MainIn) (e : Endpoint) : Call → Option Endpoint
  | .createQp id => some { e with cq := e.cq.reqNotify, log := .qpBuilt id :: e.log }
  | .postRecv => some { e with rq := e.rq + 1 }
  | .accept id => some { e with log := .accepted id :: e.log }
  | .postSend wr sge => some (e.postSend wr sge inp.ret)
  | .disconnect id =>
      some { e with qpErr := e.qpErr || id == e.cb.qp, log := .disconnected id :: e.log }
  | .destroyQp => e.destroyQp
  | .destroyId id => some { e with log := .destroyed id :: e.log }
  | .none | .listen | .destroyListener | .resolveAddr | .connect | .fill _ => some e

/-- The calls that touch neither the send queue nor the completion queue. -/
def Call.quiet : Call → Bool
  | .postSend _ _ | .destroyQp => false
  | _ => true

theorem waitEvent_eq_some {cond : Prop} [Decidable cond] {inp : MainIn} {cb : IbContext}
    {Pc : Type} {next : Pc} {r : IbContext × Pc × Call} :
    waitEvent cond inp cb next = some r
      ↔ (cond ∨ inp.signal = true) ∧ r = (cb, next, .none) := by
  unfold waitEvent
  by_cases h : cond ∨ inp.signal = true
  · rw [if_pos h, Option.some.injEq]
    exact ⟨fun hr => ⟨h, hr.symm⟩, fun hr => hr.2.symm⟩
  · rw [if_neg h]
    exact ⟨nofun, fun hr => absurd hr.1 h⟩

/-- A quiet call leaves both queues and the control block alone, and
records nothing about work requests. -/
theorem Endpoint.call_quiet {inp : MainIn} {e e' : Endpoint} {call : Call}
    (h : e.call inp call = some e') (hq : call.quiet = true) :
    e'.cb = e.cb ∧ e'.sq = e.sq ∧ e'.cq.queue = e.cq.queue ∧ e'.draining = e.draining ∧
      (∀ op, e'.posted op = e.posted op) ∧ ∀ op, e'.handled op = e.handled op := by
  cases call <;> simp only [Call.quiet, Bool.false_eq_true] at hq <;>
    simp only [Endpoint.call, Option.some.injEq] at h <;> subst h <;>
    simp [Endpoint.posted, Endpoint.handled, Obs.isPosted, Obs.isHandled]

/-- No call writes the control block. -/
theorem Endpoint.call_cb {inp : MainIn} {e e' : Endpoint} {call : Call}
    (h : e.call inp call = some e') : e'.cb = e.cb := by
  cases call with
  | postSend wr sge =>
      simp only [Endpoint.call, Option.some.injEq] at h
      subst h
      by_cases hret : inp.ret = 0 <;> simp [Endpoint.postSend, hret]
  | destroyQp =>
      simp only [Endpoint.call, Endpoint.destroyQp] at h
      split at h <;> cases h
      rfl
  | _ =>
      simp only [Endpoint.call, Option.some.injEq] at h
      subst h
      rfl

/-- Only `ib_post_send` posts. -/
theorem Endpoint.call_posted_mem {inp : MainIn} {e e' : Endpoint} {call : Call}
    (h : e.call inp call = some e') {wr : SendWr} {sge : Sge}
    (hmem : Obs.posted wr sge ∈ e'.log) :
    Obs.posted wr sge ∈ e.log ∨ call = .postSend wr sge := by
  cases call with
  | postSend wr' sge' =>
      simp only [Endpoint.call, Option.some.injEq] at h
      subst h
      by_cases hret : inp.ret = 0
      · simp only [Endpoint.postSend, hret, if_true, List.mem_cons, Obs.posted.injEq] at hmem
        rcases hmem with ⟨rfl, rfl⟩ | hmem
        · exact .inr rfl
        · exact .inl hmem
      · simp only [Endpoint.postSend, hret, if_false, List.mem_cons, reduceCtorEq,
          false_or] at hmem
        exact .inl hmem
  | destroyQp =>
      simp only [Endpoint.call, Endpoint.destroyQp] at h
      split at h <;> cases h
      exact .inl hmem
  | _ =>
      simp only [Endpoint.call, Option.some.injEq] at h
      subst h
      exact .inl (by simpa using hmem)

/-- A call that posts nothing. -/
theorem Endpoint.call_sq {inp : MainIn} {e e' : Endpoint} {call : Call}
    (hpost : ∀ wr sge, call ≠ .postSend wr sge) (h : e.call inp call = some e') :
    (e'.sq = e.sq ∨ e'.sq = []) ∧ (e'.cq.queue = e.cq.queue ∨ e'.cq.queue = []) := by
  cases call with
  | postSend wr sge => exact absurd rfl (hpost wr sge)
  | destroyQp =>
      simp only [Endpoint.call, Endpoint.destroyQp] at h
      split at h <;> cases h
      exact ⟨.inr rfl, .inr rfl⟩
  | _ =>
      simp only [Endpoint.call, Option.some.injEq] at h
      subst h
      exact ⟨.inl rfl, .inl rfl⟩

/-- `ib_post_send` appends the work request or fails. -/
theorem Endpoint.postSend_sq (e : Endpoint) (wr : SendWr) (sge : Sge) (ret : Int) :
    (e.postSend wr sge ret).cb = e.cb ∧ (e.postSend wr sge ret).qpErr = e.qpErr ∧
      ∃ new, (e.postSend wr sge ret).sq = e.sq ++ new ∧ ∀ p ∈ new, p = ⟨wr, sge, 0⟩ := by
  by_cases hret : ret = 0
  · simp only [postSend, hret, if_true]
    exact ⟨trivial, trivial, [⟨wr, sge, 0⟩], rfl, fun p hp => List.mem_singleton.mp hp⟩
  · simp only [postSend, hret, if_false]
    exact ⟨trivial, trivial, [], (List.append_nil _).symm, fun p hp => absurd hp List.not_mem_nil⟩

end MegaVM
