import MegaVM.Handlers

/-!
# One end of the connection

What both modules run on: the control block, the completion queue with
its handler, the send queue and the posted receives of the queue pair.
A step is one invocation of the CM handler, one move of the CQ handler
(its entry, or one turn of its poll loop), or one move of the HCA.

The send queue is in posting order and only its oldest work request
moves bytes or completes, so completions arrive in posting order. In the
error state of the queue pair nothing moves any more: work requests and
receives complete with `IB_WC_WR_FLUSH_ERR`.

`log` is a history of what happened at this end, newest first; no step
reads it.
-/

namespace MegaVM

open TestState

/-- What the history records. -/
inductive Obs
  /-- `ib_post_send` returned 0. -/
  | posted (wr : SendWr) (sge : Sge)
  /-- `ib_post_send` failed. -/
  | refused (wr : SendWr)
  /-- The CQ handler polled a completion. -/
  | handled (wc : Wc)
  /-- The CM delivered a child id with `CONNECT_REQUEST`. -/
  | delivered (id : CmId)
  | qpBuilt (id : CmId)
  | accepted (id : CmId)
  | disconnected (id : CmId)
  | destroyed (id : CmId)
  deriving DecidableEq, Repr

structure Endpoint where
  cb : IbContext
  cq : Cq
  /-- The CQ handler is inside its poll loop. -/
  draining : Bool
  sq : List Posted
  rq : Nat
  qpErr : Bool
  log : List Obs
  deriving DecidableEq, Repr

/-- An end before its queue pair exists. -/
def Endpoint.init (cb : IbContext) : Endpoint := ⟨cb, .empty, false, [], 0, false, []⟩

/-- The moves of an end other than those of its main thread. -/
inductive EpLabel
  /-- The CM handler runs; `ret` is the result of `rdma_resolve_route`. -/
  | cm (event : CmEvent) (id : CmId) (ret : Int)
  /-- A queued invocation of the CQ handler starts. -/
  | cqEnter
  /-- `ib_poll_cq`; `ret` is the result of the re-posting `ib_post_recv`. -/
  | cqPoll (ret : Int)
  /-- `ib_poll_cq` fails. -/
  | cqPollErr
  /-- The oldest work request completes successfully. -/
  | complete
  /-- The oldest work request fails, and the queue pair with it. -/
  | fail
  /-- The oldest work request is flushed. -/
  | flush
  /-- A message of the peer lands in the posted receive. -/
  | land (buf : RdmaInfo) (byteLen : BitVec 32) (status : WcStatus)
  /-- A posted receive is flushed. -/
  | flushRecv
  /-- The peer is gone: the queue pair enters the error state. -/
  | breakQp
  deriving DecidableEq, Repr

namespace Endpoint

def cm (e : Endpoint) (event : CmEvent) (id : CmId) (ret : Int) : Endpoint :=
  { e with
    cb := (cmaEventHandler e.cb event id ret).1
    log := if event = .connectRequest then .delivered id :: e.log else e.log }

def cqEnter (e : Endpoint) : Option Endpoint :=
  if e.cq.pending = 0 ∨ e.draining then none
  -- the handler returns without arming the queue again
  else if e.cb.state = error then
    some { e with cq := { e.cq with pending := e.cq.pending - 1 } }
  else
    some { e with
      cq := { e.cq with armed := true, pending := e.cq.pending - 1 }
      draining := true }

def cqPoll (hook : RecvHook) (ret : Int) (e : Endpoint) : Option Endpoint :=
  if e.draining then
    match e.cq.queue with
    | [] => some { e with draining := false }
    | wc :: rest =>
        let d := drainOne hook e.cb wc ret
        some { e with
          cb := d.cb
          cq := { e.cq with queue := rest }
          draining := !d.stop
          rq := if d.reposted then e.rq + 1 else e.rq
          log := .handled wc :: e.log }
  else none

def cqPollErr (e : Endpoint) : Option Endpoint :=
  if e.draining then some { e with cb := (gotoError e.cb).cb, draining := false }
  else none

/-- The oldest work request leaves the send queue with `status`. -/
def retire (e : Endpoint) (p : Posted) (rest : List Posted) (status : WcStatus) :
    Endpoint :=
  { e with sq := rest, cq := e.cq.add ⟨status, p.wr.opcode.wc, p.sge.length⟩ }

/-- `ib_post_send`, returning `ret`. -/
def postSend (e : Endpoint) (wr : SendWr) (sge : Sge) (ret : Int) : Endpoint :=
  if ret = 0 then { e with sq := e.sq ++ [⟨wr, sge, 0⟩], log := .posted wr sge :: e.log }
  -- the callers print the error and go on
  else { e with log := .refused wr :: e.log }

/-- `ib_destroy_qp` and `ib_destroy_cq`, which wait for a running
handler. -/
def destroyQp (e : Endpoint) : Option Endpoint :=
  if e.draining then none
  else some { e with sq := [], cq := .empty, rq := 0 }

/-- The moves other than those of the main thread. -/
def step (hook : RecvHook) (e : Endpoint) : EpLabel → Option Endpoint
  | .cm event id ret => some (e.cm event id ret)
  | .cqEnter => e.cqEnter
  | .cqPoll ret => e.cqPoll hook ret
  | .cqPollErr => e.cqPollErr
  | .complete =>
      match e.sq with
      | [] => none
      | p :: rest =>
          -- a work request completes when all of its bytes are moved
          if e.qpErr ∨ p.moved < p.sge.length.toNat then none
          else some (e.retire p rest .success)
  | .fail =>
      match e.sq with
      | [] => none
      | p :: rest =>
          if e.qpErr then none else some { e.retire p rest .failure with qpErr := true }
  | .flush =>
      match e.sq with
      | [] => none
      | p :: rest => if e.qpErr then some (e.retire p rest .wrFlushErr) else none
  | .land buf byteLen status =>
      if e.rq = 0 ∨ e.qpErr then none
      else some { e with
        cb := { e.cb with recvBuf := buf }
        rq := e.rq - 1
        cq := e.cq.add ⟨status, .recv, byteLen⟩ }
  | .flushRecv =>
      if e.rq ≠ 0 ∧ e.qpErr then
        some { e with rq := e.rq - 1, cq := e.cq.add ⟨.wrFlushErr, .recv, 0⟩ }
      else none
  | .breakQp => some { e with qpErr := true }

/-! ## Inversion of a step -/

theorem step_cqEnter {hook : RecvHook} {e e' : Endpoint}
    (h : e.step hook .cqEnter = some e') :
    e.cq.pending ≠ 0 ∧ e.draining = false ∧
      e' = { e with
        cq := { e.cq with
          armed := if e.cb.state = error then e.cq.armed else true
          pending := e.cq.pending - 1 }
        draining := e.cb.state ≠ error } := by
  simp only [step, cqEnter] at h
  split at h
  · cases h
  · rename_i hp
    simp only [not_or, Bool.not_eq_true] at hp
    refine ⟨hp.1, hp.2, ?_⟩
    split at h <;> cases h <;> simp_all

theorem step_cqPollErr {hook : RecvHook} {e e' : Endpoint}
    (h : e.step hook .cqPollErr = some e') :
    e.draining = true ∧ e' = { e with cb := (gotoError e.cb).cb, draining := false } := by
  simp only [step, cqPollErr] at h
  split at h <;> cases h
  exact ⟨‹_›, rfl⟩

theorem step_complete {hook : RecvHook} {e e' : Endpoint}
    (h : e.step hook .complete = some e') :
    ∃ p rest, e.sq = p :: rest ∧ e.qpErr = false ∧ p.sge.length.toNat ≤ p.moved ∧
      e' = e.retire p rest .success := by
  cases hsq : e.sq with
  | nil => simp [step, hsq] at h
  | cons p rest =>
    simp only [step, hsq] at h
    split at h
    · cases h
    · rename_i hg
      simp only [not_or, Bool.not_eq_true, Nat.not_lt] at hg
      cases h
      exact ⟨p, rest, rfl, hg.1, hg.2, rfl⟩

theorem step_fail {hook : RecvHook} {e e' : Endpoint} (h : e.step hook .fail = some e') :
    ∃ p rest, e.sq = p :: rest ∧ e.qpErr = false ∧
      e' = { e.retire p rest .failure with qpErr := true } := by
  cases hsq : e.sq with
  | nil => simp [step, hsq] at h
  | cons p rest =>
    simp only [step, hsq] at h
    split at h
    · cases h
    · rename_i hg
      cases h
      exact ⟨p, rest, rfl, by simpa using hg, rfl⟩

theorem step_flush {hook : RecvHook} {e e' : Endpoint} (h : e.step hook .flush = some e') :
    ∃ p rest, e.sq = p :: rest ∧ e.qpErr = true ∧ e' = e.retire p rest .wrFlushErr := by
  cases hsq : e.sq with
  | nil => simp [step, hsq] at h
  | cons p rest =>
    simp only [step, hsq] at h
    split at h <;> cases h
    exact ⟨p, rest, rfl, ‹_›, rfl⟩

theorem step_land {hook : RecvHook} {e e' : Endpoint} {buf : RdmaInfo} {byteLen : BitVec 32}
    {status : WcStatus} (h : e.step hook (.land buf byteLen status) = some e') :
    e.rq ≠ 0 ∧ e.qpErr = false ∧
      e' = { e with
        cb := { e.cb with recvBuf := buf }
        rq := e.rq - 1
        cq := e.cq.add ⟨status, .recv, byteLen⟩ } := by
  simp only [step] at h
  split at h
  · cases h
  · rename_i hg
    simp only [not_or, Bool.not_eq_true] at hg
    cases h
    exact ⟨hg.1, hg.2, rfl⟩

theorem step_flushRecv {hook : RecvHook} {e e' : Endpoint}
    (h : e.step hook .flushRecv = some e') :
    e.rq ≠ 0 ∧ e.qpErr = true ∧
      e' = { e with rq := e.rq - 1, cq := e.cq.add ⟨.wrFlushErr, .recv, 0⟩ } := by
  simp only [step] at h
  split at h <;> cases h
  rename_i hg
  exact ⟨hg.1, hg.2, rfl⟩

/-- A poll of an empty queue ends the handler; a poll of a completion
runs the loop body on it. -/
theorem step_poll {hook : RecvHook} {e e' : Endpoint} {ret : Int}
    (h : e.step hook (.cqPoll ret) = some e') :
    e.draining = true ∧
      ((e.cq.queue = [] ∧ e' = { e with draining := false }) ∨
       ∃ wc rest, e.cq.queue = wc :: rest ∧
        e' = { e with
          cb := (drainOne hook e.cb wc ret).cb
          cq := { e.cq with queue := rest }
          draining := !(drainOne hook e.cb wc ret).stop
          rq := if (drainOne hook e.cb wc ret).reposted then e.rq + 1 else e.rq
          log := .handled wc :: e.log }) := by
  simp only [step, cqPoll] at h
  split at h
  · rename_i hd
    refine ⟨hd, ?_⟩
    cases hq : e.cq.queue with
    | nil =>
      simp only [hq, Option.some.injEq] at h
      exact .inl ⟨rfl, h.symm⟩
    | cons wc rest =>
      simp only [hq, Option.some.injEq] at h
      exact .inr ⟨wc, rest, rfl, h.symm⟩
  · cases h

end Endpoint

/-! ## Completions -/

/-- The completion a move adds to the queue. -/
def EpLabel.completion (e : Endpoint) : EpLabel → Option Wc
  | .complete => e.sq.head?.map fun p => ⟨.success, p.wr.opcode.wc, p.sge.length⟩
  | .fail => e.sq.head?.map fun p => ⟨.failure, p.wr.opcode.wc, p.sge.length⟩
  | .flush => e.sq.head?.map fun p => ⟨.wrFlushErr, p.wr.opcode.wc, p.sge.length⟩
  | .land _ byteLen status => some ⟨status, .recv, byteLen⟩
  | .flushRecv => some ⟨.wrFlushErr, .recv, 0⟩
  | _ => none

/-- The completion has come in, handled or not. -/
def Endpoint.Completed (e : Endpoint) (wc : Wc) : Prop :=
  wc ∈ e.cq.queue ∨ .handled wc ∈ e.log

theorem Endpoint.completed_add {e : Endpoint} {wc w : Wc} :
    (w ∈ (e.cq.add wc).queue ∨ .handled w ∈ e.log) ↔ e.Completed w ∨ some wc = some w := by
  simp only [Cq.add_queue, List.mem_append, List.mem_singleton, Completed, Option.some.injEq]
  constructor
  · rintro ((hq | rfl) | hl)
    · exact .inl (.inl hq)
    · exact .inr rfl
    · exact .inl (.inr hl)
  · rintro ((hq | hl) | rfl)
    · exact .inl (.inl hq)
    · exact .inr hl
    · exact .inl (.inr rfl)

/-- A move loses no completion, and adds the one it makes. -/
theorem Endpoint.step_completed {hook : RecvHook} {e e' : Endpoint} {l : EpLabel}
    (h : e.step hook l = some e') (w : Wc) :
    e'.Completed w ↔ e.Completed w ∨ l.completion e = some w := by
  have hnone {P : Prop} : P ↔ P ∨ (none : Option Wc) = some w := (or_iff_left nofun).symm
  cases l with
  | cm event id ret =>
      simp only [step, Option.some.injEq] at h
      subst h
      by_cases hreq : event = .connectRequest <;>
        simp [Completed, cm, hreq, EpLabel.completion]
  | cqEnter =>
      obtain ⟨-, -, rfl⟩ := step_cqEnter h
      exact hnone
  | cqPoll ret =>
      obtain ⟨-, ⟨-, rfl⟩ | ⟨wc, rest, hq, rfl⟩⟩ := step_poll h
      · exact hnone
      · refine Iff.trans ?_ hnone
        simp only [Completed, hq, List.mem_cons, Obs.handled.injEq]
        constructor
        · rintro (hr | rfl | hl)
          · exact .inl (.inr hr)
          · exact .inl (.inl rfl)
          · exact .inr hl
        · rintro ((rfl | hr) | hl)
          · exact .inr (.inl rfl)
          · exact .inl hr
          · exact .inr (.inr hl)
  | cqPollErr =>
      obtain ⟨-, rfl⟩ := step_cqPollErr h
      exact hnone
  | complete =>
      obtain ⟨p, rest, hsq, -, -, rfl⟩ := step_complete h
      rw [EpLabel.completion, hsq]
      exact completed_add
  | fail =>
      obtain ⟨p, rest, hsq, -, rfl⟩ := step_fail h
      rw [EpLabel.completion, hsq]
      exact completed_add
  | flush =>
      obtain ⟨p, rest, hsq, -, rfl⟩ := step_flush h
      rw [EpLabel.completion, hsq]
      exact completed_add
  | land buf byteLen status =>
      obtain ⟨-, -, rfl⟩ := step_land h
      exact completed_add
  | flushRecv =>
      obtain ⟨-, -, rfl⟩ := step_flushRecv h
      exact completed_add
  | breakQp =>
      simp only [step, Option.some.injEq] at h
      subst h
      exact hnone

/-! ## RDMA operations not handled yet -/

/-- The completions of RDMA READs and WRITEs. -/
def WcOpcode.isRdma : WcOpcode → Bool
  | .rdmaRead | .rdmaWrite => true
  | _ => false

/-- The poll of a completion with opcode `op`. -/
def Obs.isHandled (op : WcOpcode) : Obs → Bool
  | .handled wc => wc.opcode == op
  | _ => false

/-- The posting of a work request that completes with `op`. -/
def Obs.isPosted (op : WcOpcode) : Obs → Bool
  | .posted wr _ => wr.opcode.wc == op
  | _ => false

namespace Endpoint

/-- The RDMA operations posted and not yet polled by the CQ handler, in
posting order: first those whose completion waits in the queue, then
those still on the send queue. -/
def unhandled (e : Endpoint) : List WcOpcode :=
  (e.cq.queue.map (·.opcode) ++ e.sq.map (·.wr.opcode.wc)).filter (·.isRdma)

/-- Completions polled so far, by opcode. -/
def handled (e : Endpoint) (op : WcOpcode) : Nat := e.log.countP (·.isHandled op)

/-- Work requests posted so far, by the opcode of their completion. -/
def posted (e : Endpoint) (op : WcOpcode) : Nat := e.log.countP (·.isPosted op)

theorem retire_unhandled {e : Endpoint} {p : Posted} {rest : List Posted}
    (h : e.sq = p :: rest) (status : WcStatus) :
    (e.retire p rest status).unhandled = e.unhandled := by
  simp [unhandled, retire, h]

/-- Only a poll takes an RDMA operation off the list. -/
theorem step_unhandled {hook : RecvHook} {e e' : Endpoint} {l : EpLabel}
    (h : e.step hook l = some e') (hl : ∀ ret, l ≠ .cqPoll ret) :
    e'.unhandled = e.unhandled ∧ (∀ op, e'.handled op = e.handled op) ∧
      ∀ op, e'.posted op = e.posted op := by
  cases l with
  | cm event id ret =>
    simp only [step, Option.some.injEq] at h
    subst h
    by_cases hr : event = .connectRequest <;> simp [cm, unhandled, handled, posted, hr,
      Obs.isHandled, Obs.isPosted]
  | cqEnter =>
    obtain ⟨-, -, rfl⟩ := step_cqEnter h
    exact ⟨rfl, fun _ => rfl, fun _ => rfl⟩
  | cqPoll ret => exact absurd rfl (hl ret)
  | cqPollErr =>
    obtain ⟨-, rfl⟩ := step_cqPollErr h
    exact ⟨rfl, fun _ => rfl, fun _ => rfl⟩
  | complete =>
    obtain ⟨p, rest, hsq, -, -, rfl⟩ := step_complete h
    exact ⟨retire_unhandled hsq _, fun _ => rfl, fun _ => rfl⟩
  | fail =>
    obtain ⟨p, rest, hsq, -, rfl⟩ := step_fail h
    exact ⟨retire_unhandled hsq .failure, fun _ => rfl, fun _ => rfl⟩
  | flush =>
    obtain ⟨p, rest, hsq, -, rfl⟩ := step_flush h
    exact ⟨retire_unhandled hsq _, fun _ => rfl, fun _ => rfl⟩
  | land buf byteLen status =>
    obtain ⟨-, -, rfl⟩ := step_land h
    simp [unhandled, handled, posted, WcOpcode.isRdma]
  | flushRecv =>
    obtain ⟨-, -, rfl⟩ := step_flushRecv h
    simp [unhandled, handled, posted, WcOpcode.isRdma]
  | breakQp =>
    simp only [step, Option.some.injEq] at h
    subst h
    exact ⟨rfl, fun _ => rfl, fun _ => rfl⟩

/-- The moves of the HCA and the entry of the CQ handler change no field
of the control block but `recv_buf`, and record nothing. -/
theorem step_cb {hook : RecvHook} {e e' : Endpoint} {l : EpLabel}
    (h : e.step hook l = some e') (hcm : ∀ ev id ret, l ≠ .cm ev id ret)
    (hp : ∀ ret, l ≠ .cqPoll ret) (he : l ≠ .cqPollErr) :
    (∃ buf, e'.cb = { e.cb with recvBuf := buf }) ∧ e'.log = e.log := by
  cases l with
  | cm event id ret => exact absurd rfl (hcm event id ret)
  | cqPoll ret => exact absurd rfl (hp ret)
  | cqPollErr => exact absurd rfl he
  | cqEnter =>
    obtain ⟨-, -, rfl⟩ := step_cqEnter h
    exact ⟨⟨e.cb.recvBuf, rfl⟩, rfl⟩
  | complete =>
    obtain ⟨p, rest, -, -, -, rfl⟩ := step_complete h
    exact ⟨⟨e.cb.recvBuf, rfl⟩, rfl⟩
  | fail =>
    obtain ⟨p, rest, -, -, rfl⟩ := step_fail h
    exact ⟨⟨e.cb.recvBuf, rfl⟩, rfl⟩
  | flush =>
    obtain ⟨p, rest, -, -, rfl⟩ := step_flush h
    exact ⟨⟨e.cb.recvBuf, rfl⟩, rfl⟩
  | land buf byteLen status =>
    obtain ⟨-, -, rfl⟩ := step_land h
    exact ⟨⟨buf, rfl⟩, rfl⟩
  | flushRecv =>
    obtain ⟨-, -, rfl⟩ := step_flushRecv h
    exact ⟨⟨e.cb.recvBuf, rfl⟩, rfl⟩
  | breakQp =>
    simp only [step, Option.some.injEq] at h
    subst h
    exact ⟨⟨e.cb.recvBuf, rfl⟩, rfl⟩

/-- Without a message they leave it alone altogether. -/
theorem step_cb_eq {hook : RecvHook} {e e' : Endpoint} {l : EpLabel}
    (h : e.step hook l = some e') (hcm : ∀ ev id ret, l ≠ .cm ev id ret)
    (hp : ∀ ret, l ≠ .cqPoll ret) (he : l ≠ .cqPollErr)
    (hl : ∀ buf byteLen status, l ≠ .land buf byteLen status) : e'.cb = e.cb := by
  cases l with
  | cm event id ret => exact absurd rfl (hcm event id ret)
  | cqPoll ret => exact absurd rfl (hp ret)
  | cqPollErr => exact absurd rfl he
  | land buf byteLen status => exact absurd rfl (hl buf byteLen status)
  | cqEnter =>
    obtain ⟨-, -, rfl⟩ := step_cqEnter h
    rfl
  | complete =>
    obtain ⟨p, rest, -, -, -, rfl⟩ := step_complete h
    rfl
  | fail =>
    obtain ⟨p, rest, -, -, rfl⟩ := step_fail h
    rfl
  | flush =>
    obtain ⟨p, rest, -, -, rfl⟩ := step_flush h
    rfl
  | flushRecv =>
    obtain ⟨-, -, rfl⟩ := step_flushRecv h
    rfl
  | breakQp =>
    simp only [step, Option.some.injEq] at h
    subst h
    rfl

/-- The send queue only loses its oldest work request, and unless the
queue pair is in the error state only one that has moved all its bytes. -/
theorem step_sq {hook : RecvHook} {e e' : Endpoint} {l : EpLabel}
    (h : e.step hook l = some e') :
    (e.qpErr = true → e'.qpErr = true) ∧
      (e'.sq = e.sq ∨ ∃ p rest, e.sq = p :: rest ∧ e'.sq = rest ∧
        (e'.qpErr = true ∨ p.sge.length.toNat ≤ p.moved)) := by
  cases l with
  | cm event id ret =>
    simp only [step, Option.some.injEq] at h
    subst h
    exact ⟨fun herr => herr, .inl rfl⟩
  | cqEnter =>
    obtain ⟨-, -, rfl⟩ := step_cqEnter h
    exact ⟨fun herr => herr, .inl rfl⟩
  | cqPoll ret =>
    obtain ⟨-, ⟨-, rfl⟩ | ⟨wc, rest, -, rfl⟩⟩ := step_poll h
    · exact ⟨fun herr => herr, .inl rfl⟩
    · exact ⟨fun herr => herr, .inl rfl⟩
  | cqPollErr =>
    obtain ⟨-, rfl⟩ := step_cqPollErr h
    exact ⟨fun herr => herr, .inl rfl⟩
  | complete =>
    obtain ⟨p, rest, hsq, -, hdone, rfl⟩ := step_complete h
    exact ⟨fun herr => herr, .inr ⟨p, rest, hsq, rfl, .inr hdone⟩⟩
  | fail =>
    obtain ⟨p, rest, hsq, -, rfl⟩ := step_fail h
    exact ⟨fun _ => rfl, .inr ⟨p, rest, hsq, rfl, .inl rfl⟩⟩
  | flush =>
    obtain ⟨p, rest, hsq, herr, rfl⟩ := step_flush h
    exact ⟨fun herr => herr, .inr ⟨p, rest, hsq, rfl, .inl herr⟩⟩
  | land buf byteLen status =>
    obtain ⟨-, -, rfl⟩ := step_land h
    exact ⟨fun herr => herr, .inl rfl⟩
  | flushRecv =>
    obtain ⟨-, -, rfl⟩ := step_flushRecv h
    exact ⟨fun herr => herr, .inl rfl⟩
  | breakQp =>
    simp only [step, Option.some.injEq] at h
    subst h
    exact ⟨fun _ => rfl, .inl rfl⟩

theorem step_sq_mem {hook : RecvHook} {e e' : Endpoint} {l : EpLabel}
    (h : e.step hook l = some e') : ∀ p ∈ e'.sq, p ∈ e.sq := by
  rcases (step_sq h).2 with heq | ⟨p, rest, hsq, hsq', -⟩
  · rw [heq]
    exact fun _ hp => hp
  · rw [hsq, hsq']
    exact fun _ hp => List.mem_cons_of_mem p hp

/-- An end posts nothing by itself. -/
theorem step_posted_mem {hook : RecvHook} {e e' : Endpoint} {l : EpLabel}
    (h : e.step hook l = some e') {wr : SendWr} {sge : Sge} :
    Obs.posted wr sge ∈ e'.log ↔ Obs.posted wr sge ∈ e.log := by
  by_cases hcm : ∃ event id ret, l = .cm event id ret
  · obtain ⟨event, id, ret, rfl⟩ := hcm
    simp only [step, Option.some.injEq] at h
    subst h
    by_cases hr : event = .connectRequest <;> simp [cm, hr]
  · push Not at hcm
    by_cases hp : ∃ ret, l = .cqPoll ret
    · obtain ⟨ret, rfl⟩ := hp
      obtain ⟨-, ⟨-, rfl⟩ | ⟨wc, rest, -, rfl⟩⟩ := step_poll h <;> simp
    · push Not at hp
      by_cases he : l = .cqPollErr
      · subst he
        obtain ⟨-, rfl⟩ := step_cqPollErr h
        exact Iff.rfl
      · rw [(step_cb h hcm hp he).2]

/-- No move of an end writes a field of the main thread. -/
theorem step_mainFields {hook : RecvHook} (hf : hook.Framed) {e e' : Endpoint}
    {l : EpLabel} (h : e.step hook l = some e') : e'.cb.mainFields = e.cb.mainFields := by
  by_cases hcm : ∃ ev id ret, l = .cm ev id ret
  · obtain ⟨ev, id, ret, rfl⟩ := hcm
    simp only [step, Option.some.injEq] at h
    subst h
    exact cmaEventHandler_mainFields _ _ _ _
  · by_cases hp : ∃ ret, l = .cqPoll ret
    · obtain ⟨ret, rfl⟩ := hp
      obtain ⟨-, ⟨-, rfl⟩ | ⟨wc, rest, -, rfl⟩⟩ := step_poll h
      · rfl
      · exact drainOne_mainFields hf _ _ _
    · by_cases he : l = .cqPollErr
      · subst he
        obtain ⟨-, rfl⟩ := step_cqPollErr h
        rfl
      · push Not at hcm hp
        obtain ⟨⟨buf, hb⟩, -⟩ := step_cb h hcm hp he
        rw [hb]
        rfl

/-- What a poll takes off the list: the RDMA operation whose completion
it polls, or nothing. -/
theorem poll_unhandled {e e' : Endpoint} {wc : Wc} {rest : List Wc}
    (hq : e.cq.queue = wc :: rest) (hq' : e'.cq.queue = rest) (hsq : e'.sq = e.sq) :
    e.unhandled = if wc.opcode.isRdma then wc.opcode :: e'.unhandled else e'.unhandled := by
  simp only [unhandled, hq, hq', hsq, List.map_cons, List.cons_append, List.filter_cons]

/-- Posted operations stay posted, and every RDMA operation that leaves
the list of unhandled ones is counted as handled. -/
theorem step_counts {hook : RecvHook} {e e' : Endpoint} {l : EpLabel}
    (h : e.step hook l = some e') (op : WcOpcode) (hop : op.isRdma = true) :
    e'.posted op = e.posted op ∧
      e'.handled op + e'.unhandled.count op = e.handled op + e.unhandled.count op := by
  by_cases hp : ∃ ret, l = .cqPoll ret
  · obtain ⟨ret, rfl⟩ := hp
    obtain ⟨-, ⟨-, rfl⟩ | ⟨wc, rest, hq, he'⟩⟩ := step_poll h
    · exact ⟨rfl, rfl⟩
    · have hlog : e'.log = .handled wc :: e.log := by rw [he']
      have hu : e.unhandled = if wc.opcode.isRdma then wc.opcode :: e'.unhandled
          else e'.unhandled := poll_unhandled hq (by rw [he']) (by rw [he'])
      refine ⟨by simp [posted, hlog, Obs.isPosted], ?_⟩
      rw [hu]
      by_cases hw : wc.opcode = op
      · subst hw
        simp only [handled, hlog, List.countP_cons, Obs.isHandled, beq_self_eq_true, if_true,
          hop, List.count_cons_self]
        omega
      · have hne : (wc.opcode == op) = false := by simpa using hw
        by_cases hr : wc.opcode.isRdma = true
        · simp [handled, hlog, hne, hr, List.count_cons, Obs.isHandled]
        · simp [handled, hlog, hne, hr, Obs.isHandled]
  · push Not at hp
    obtain ⟨hu, hh, hpo⟩ := step_unhandled h hp
    exact ⟨hpo op, by rw [hu, hh op]⟩

/-- A step of the endpoint adds nothing to the unhandled operations. -/
theorem step_unhandled_nil {hook : RecvHook} {e e' : Endpoint} {l : EpLabel}
    (h : e.step hook l = some e') (he : e.unhandled = []) : e'.unhandled = [] := by
  by_cases hp : ∃ ret, l = .cqPoll ret
  · obtain ⟨ret, rfl⟩ := hp
    obtain ⟨-, ⟨-, rfl⟩ | ⟨wc, rest, hq, he'⟩⟩ := step_poll h
    · exact he
    · have hu : e.unhandled = if wc.opcode.isRdma then wc.opcode :: e'.unhandled
          else e'.unhandled := poll_unhandled hq (by rw [he']) (by rw [he'])
      rw [hu] at he
      split at he
      · cases he
      · exact he
  · push Not at hp
    rw [(step_unhandled h hp).1, he]

end Endpoint

end MegaVM
