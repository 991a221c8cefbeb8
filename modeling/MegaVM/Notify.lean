import MegaVM.Lib.Rearm
import MegaVM.Client.Machine
import MegaVM.Server.Transfer

/-!
# The notification of the completion queue

Both CQ handlers arm the queue before they poll it. Seen as a queue with
a one-shot notification (`Endpoint.line`), the completion queue makes no
move but those of `MegaVM.Lib.Rearm` as long as `state` is not `ERROR`,
so no completion waits without an invocation of the handler to poll it
(`CqLive`), from the set-up of the queue pair to its destruction.
-/

namespace MegaVM

open TestState Runs

/-! ## The completion queue of an end -/

/-- The completion queue with its notification and its handler. -/
def Endpoint.line (e : Endpoint) : Rearm.Line Wc :=
  ⟨e.cq.queue, e.cq.armed, e.cq.pending, e.draining⟩

/-- No completion waits without an invocation of the handler. -/
structure CqLive (e : Endpoint) : Prop where
  notify : e.cq.armed = true ∨ e.cq.pending ≠ 0
  handler : e.cq.queue ≠ [] → e.cq.pending ≠ 0 ∨ e.draining = true

theorem cqLive_iff {e : Endpoint} : CqLive e ↔ Rearm.Live e.line :=
  ⟨fun h => ⟨h.notify, h.handler⟩, fun h => ⟨h.notify, h.handler⟩⟩

theorem CqLive.congr {e e' : Endpoint} (h : CqLive e) (hline : e'.line = e.line) : CqLive e' := by
  rw [cqLive_iff, hline, ← cqLive_iff]
  exact h

theorem line_add (e : Endpoint) (wc : Wc) (sq : List Posted) (rq : Nat) (cb : IbContext)
    (qpErr : Bool) :
    Rearm.Move e.line
      { e with cb := cb, sq := sq, rq := rq, qpErr := qpErr, cq := e.cq.add wc }.line :=
  .arrive e.line wc

/-- `goto error` is the only way out of the poll loop before it finds the
queue empty. -/
theorem drainOne_stop {hook : RecvHook} {cb : IbContext} {wc : Wc} {ret : Int}
    (h : (drainOne hook cb wc ret).stop = true) : (drainOne hook cb wc ret).cb.state = error := by
  revert h
  unfold drainOne
  split
  · intro h
    cases h
  · exact fun _ => rfl
  · split
    · intro h
      cases h
    · intro h
      cases h
    · intro h
      cases h
    · dsimp only
      split
      · exact fun _ => rfl
      · split
        · exact fun _ => rfl
        · intro h
          cases h
    · exact fun _ => rfl

/-- **Refinement.** A step of an end that does not leave it in `ERROR` is
a move of the queue with its notification, or none of its business. -/
theorem Endpoint.step_line {hook : RecvHook} {e e' : Endpoint} {l : EpLabel}
    (h : e.step hook l = some e') (hst : e'.cb.state ≠ error) :
    Rearm.Move e.line e'.line ∨ e'.line = e.line := by
  cases l with
  | cm event id ret =>
      simp only [step, Option.some.injEq] at h
      subst h
      exact .inr rfl
  | cqEnter =>
      obtain ⟨-, -, rfl⟩ := step_cqEnter h
      -- outside `ERROR` the handler arms the queue before it polls
      have hst : e.cb.state ≠ error := hst
      left
      have hm := Rearm.Move.enter e.line
      simpa only [line, hst, if_false, ne_eq, not_false_eq_true, decide_true] using hm
  | cqPoll ret =>
      obtain ⟨hd, ⟨hq, rfl⟩ | ⟨wc, rest, hq, rfl⟩⟩ := step_poll h
      · exact .inl (.leave e.line hq)
      · left
        have hgo : (drainOne hook e.cb wc ret).stop = false := by
          cases hstop : (drainOne hook e.cb wc ret).stop with
          | false => rfl
          | true => exact absurd (drainOne_stop hstop) hst
        have hm := Rearm.Move.take e.line wc rest hd hq
        simpa only [line, hgo, Bool.not_false, hd] using hm
  | cqPollErr =>
      obtain ⟨-, rfl⟩ := step_cqPollErr h
      exact absurd (gotoError_state e.cb) hst
  | complete =>
      obtain ⟨p, rest, -, -, -, rfl⟩ := step_complete h
      exact .inl (line_add e _ rest e.rq e.cb e.qpErr)
  | fail =>
      obtain ⟨p, rest, -, -, rfl⟩ := step_fail h
      exact .inl (line_add e _ rest e.rq e.cb true)
  | flush =>
      obtain ⟨p, rest, -, -, rfl⟩ := step_flush h
      exact .inl (line_add e _ rest e.rq e.cb e.qpErr)
  | land buf byteLen status =>
      obtain ⟨-, -, rfl⟩ := step_land h
      exact .inl (line_add e _ e.sq _ _ e.qpErr)
  | flushRecv =>
      obtain ⟨-, -, rfl⟩ := step_flushRecv h
      exact .inl (line_add e _ e.sq _ e.cb e.qpErr)
  | breakQp =>
      simp only [step, Option.some.injEq] at h
      subst h
      exact .inr rfl

theorem CqLive.step {hook : RecvHook} {e e' : Endpoint} {l : EpLabel} (hlive : CqLive e)
    (h : e.step hook l = some e') (hst : e'.cb.state ≠ error) : CqLive e' := by
  rcases Endpoint.step_line h hst with hm | hsame
  · exact cqLive_iff.mpr ((cqLive_iff.mp hlive).move hm)
  · exact hlive.congr hsame

/-! ## Before the set-up and after the destruction -/

/-- An end without a queue pair: nothing is posted, nothing completes. -/
structure Bare (e : Endpoint) : Prop where
  sq : e.sq = []
  rq : e.rq = 0
  queue : e.cq.queue = []

theorem Bare.step {hook : RecvHook} {e e' : Endpoint} {l : EpLabel} (hbare : Bare e)
    (h : e.step hook l = some e') : Bare e' := by
  obtain ⟨hsq, hrq, hq⟩ := hbare
  cases l with
  | cm event id ret =>
      simp only [Endpoint.step, Option.some.injEq] at h
      subst h
      exact ⟨hsq, hrq, hq⟩
  | cqEnter =>
      obtain ⟨-, -, rfl⟩ := Endpoint.step_cqEnter h
      exact ⟨hsq, hrq, hq⟩
  | cqPoll ret =>
      obtain ⟨-, ⟨-, rfl⟩ | ⟨wc, rest, hqueue, -⟩⟩ := Endpoint.step_poll h
      · exact ⟨hsq, hrq, hq⟩
      · rw [hq] at hqueue
        cases hqueue
  | cqPollErr =>
      obtain ⟨-, rfl⟩ := Endpoint.step_cqPollErr h
      exact ⟨hsq, hrq, hq⟩
  | complete =>
      obtain ⟨p, rest, hposted, -⟩ := Endpoint.step_complete h
      rw [hsq] at hposted
      cases hposted
  | fail =>
      obtain ⟨p, rest, hposted, -⟩ := Endpoint.step_fail h
      rw [hsq] at hposted
      cases hposted
  | flush =>
      obtain ⟨p, rest, hposted, -⟩ := Endpoint.step_flush h
      rw [hsq] at hposted
      cases hposted
  | land buf byteLen status =>
      obtain ⟨hne, -⟩ := Endpoint.step_land h
      exact absurd hrq hne
  | flushRecv =>
      obtain ⟨hne, -⟩ := Endpoint.step_flushRecv h
      exact absurd hrq hne
  | breakQp =>
      simp only [Endpoint.step, Option.some.injEq] at h
      subst h
      exact ⟨hsq, hrq, hq⟩

/-- What a call of the main thread has to do with the queue pair:
`built` and `built'` say whether it exists before and after. -/
def Call.builds (built built' : Bool) : Call → Prop
  | .createQp _ => built = false ∧ built' = true
  | .destroyQp => built' = false
  | .postSend _ _ | .postRecv => built = true ∧ built' = true
  | _ => built' = built

/-- Without a queue pair the end stays bare. -/
theorem Bare.call {built : Bool} {inp : MainIn} {e e' : Endpoint} {cb : IbContext} {call : Call}
    (hbare : built = false → Bare e) (hb : call.builds built false)
    (h : Endpoint.call inp { e with cb := cb } call = some e') : Bare e' := by
  cases call with
  | createQp id => exact absurd hb.2 nofun
  | postSend wr sge => exact absurd hb.2 nofun
  | postRecv => exact absurd hb.2 nofun
  | destroyQp =>
      simp only [Endpoint.call, Endpoint.destroyQp] at h
      split at h <;> cases h
      exact ⟨rfl, rfl, rfl⟩
  | _ =>
      cases h
      have hold := hbare (Eq.symm hb)
      exact ⟨hold.sq, hold.rq, hold.queue⟩

/-- The completion queue is watched as long as it exists. -/
structure Watched (built : Bool) (e : Endpoint) : Prop where
  live : built = true → CqLive e
  bare : built = false → Bare e

theorem Watched.step {hook : RecvHook} {built : Bool} {e e' : Endpoint} {l : EpLabel}
    (hw : Watched built e) (h : e.step hook l = some e') (hst : e'.cb.state ≠ error) :
    Watched built e' :=
  ⟨fun hb => (hw.live hb).step h hst, fun hb => (hw.bare hb).step h⟩

theorem Watched.call {built built' : Bool} {inp : MainIn} {e e' : Endpoint} {cb : IbContext}
    {call : Call} (hw : Watched built e) (hb : call.builds built built')
    (h : Endpoint.call inp { e with cb := cb } call = some e') : Watched built' e' := by
  refine ⟨fun hyes => ?_, fun hno => Bare.call hw.bare (hno ▸ hb) h⟩
  subst hyes
  cases call with
  | createQp id =>
      cases h
      exact ⟨.inl rfl, fun hne => absurd (hw.bare hb.1).queue hne⟩
  -- the queue pair is still there
  | destroyQp => exact absurd hb nofun
  | postSend wr sge =>
      cases h
      refine (hw.live hb.1).congr ?_
      by_cases hret : inp.ret = 0 <;> simp [Endpoint.postSend, hret, Endpoint.line]
  | postRecv =>
      cases h
      exact (hw.live hb.1).congr rfl
  | _ =>
      cases h
      exact (hw.live (Eq.symm hb)).congr rfl

/-- A byte moved changes only the head of the send queue. -/
theorem Watched.moved {built : Bool} {e e' : Endpoint} {p q : Posted} {rest : List Posted}
    (hw : Watched built e) (hsq : e.sq = p :: rest) (he : e' = { e with sq := q :: rest }) :
    Watched built e' := by
  subst he
  refine ⟨fun hb => (hw.live hb).congr rfl, fun hb => ?_⟩
  rw [(hw.bare hb).sq] at hsq
  cases hsq

/-- An end whose handler is neither running nor about to run. -/
def Endpoint.Resting (e : Endpoint) : Prop := e.cq.pending = 0 ∧ e.draining = false

/-! ## Both machines -/

section Server
open ServerConfig
variable {N : Nat} {c c' : ServerConfig} {l : ServerLabel}

theorem serverMain_builds {len : Option Nat} {inp : MainIn} {cb cb' : IbContext}
    {pc pc' : ServerPc} {call : Call} (h : serverMain N len inp cb pc = some (cb', pc', call)) :
    call.builds (Built pc) (Built pc') := by
  cases serverMain_move h <;> simp [Call.builds, Built]

theorem watched_server (hw : Watched (Built c.pc) c.ep) (hs : c.step N l = some c')
    (hst : c'.ep.cb.state ≠ error) : Watched (Built c'.pc) c'.ep := by
  cases l with
  | main inp =>
      obtain ⟨cb, call, hm, hcall, -, -⟩ := step_main_call hs
      exact hw.call (serverMain_builds hm) hcall
  | move =>
      obtain ⟨p, rest, hsq, -, -, hep, hpc, -⟩ := step_move hs
      rw [hpc]
      exact hw.moved hsq hep
  | ep l =>
      obtain ⟨-, ep, he, rfl⟩ := step_ep hs
      exact hw.step he hst
  | reuse mem =>
      obtain ⟨-, rfl⟩ := step_reuse hs
      exact hw

end Server

namespace ClientConfig

/-- The points at which the client's queue pair exists. -/
def Built : ClientPc → Bool
  | .resolveAddr | .bindWait | .bindTest | .setupQp | .destroyId | .freed => false
  | _ => true

end ClientConfig

section Client
open ClientConfig
variable {c c' : ClientConfig} {l : ClientLabel}

theorem clientMain_builds {inp : MainIn} {cb cb' : IbContext} {pc pc' : ClientPc} {call : Call}
    (h : clientMain inp cb pc = some (cb', pc', call)) :
    call.builds (Built pc) (Built pc') := by
  cases clientMain_move h <;> simp [Call.builds, Built]

theorem watched_client (hw : Watched (Built c.pc) c.ep) (hs : c.step l = some c')
    (hst : c'.ep.cb.state ≠ error) : Watched (Built c'.pc) c'.ep := by
  cases l with
  | main inp =>
      obtain ⟨cb, call, hm, hcall⟩ := step_main hs
      exact hw.call (clientMain_builds hm) hcall
  | move =>
      obtain ⟨p, rest, hsq, rfl⟩ := step_move hs
      exact hw.moved hsq rfl
  | ep l =>
      obtain ⟨-, ep, he, rfl⟩ := step_ep hs
      exact hw.step he hst

end Client

/-- **No completion is stranded.** In every state of a run that has never
seen `ERROR`, a completion queue whose handler is neither running nor
queued is empty and armed, at the server and at the client. -/
theorem no_completion_stranded :
    (∀ (N : Nat) (host : Endian) (size : Nat) (mem : List Byte) (remote : BitVec 64 → Byte)
      (p : List (ServerLabel × ServerConfig)),
      let c₀ := ServerConfig.init host size mem remote
      Path (ServerConfig.step N) c₀ p → (∀ c ∈ states c₀ p, c.ep.cb.state ≠ error) →
        let c := last c₀ p
        ServerConfig.Built c.pc = true → c.ep.Resting →
          c.ep.cq.queue = [] ∧ c.ep.cq.armed = true) ∧
    (∀ (host : Endian) (size : Nat) (p : List (ClientLabel × ClientConfig)),
      let c₀ := ClientConfig.init host size
      Path ClientConfig.step c₀ p → (∀ c ∈ states c₀ p, c.ep.cb.state ≠ error) →
        let c := last c₀ p
        ClientConfig.Built c.pc = true → c.ep.Resting →
          c.ep.cq.queue = [] ∧ c.ep.cq.armed = true) := by
  constructor
  · intro N host size mem remote p c₀ hp hnoerr c hbuilt hrest
    -- at the start there is no queue pair
    have h0 : Watched (ServerConfig.Built c₀.pc) c₀.ep := ⟨nofun, fun _ => ⟨rfl, rfl, rfl⟩⟩
    have hall := hp.invariant_steps (P := fun c => Watched (ServerConfig.Built c.pc) c.ep) h0
      fun t ht hw => watched_server hw (steps_mem_step hp ht) (hnoerr _ (steps_mem_states ht).2)
    have hw := hall c (last_mem_states c₀ p)
    exact (cqLive_iff.mp (hw.live hbuilt)).rests hrest.1 hrest.2
  · intro host size p c₀ hp hnoerr c hbuilt hrest
    have h0 : Watched (ClientConfig.Built c₀.pc) c₀.ep := ⟨nofun, fun _ => ⟨rfl, rfl, rfl⟩⟩
    have hall := hp.invariant_steps (P := fun c => Watched (ClientConfig.Built c.pc) c.ep) h0
      fun t ht hw => watched_client hw (steps_mem_step hp ht) (hnoerr _ (steps_mem_states ht).2)
    have hw := hall c (last_mem_states c₀ p)
    exact (cqLive_iff.mp (hw.live hbuilt)).rests hrest.1 hrest.2

/-- After one advertisement the server's queue is empty and armed again,
and so is the client's after its set-up. -/
theorem no_completion_stranded_startup :
    ((last ServerConfig.boot (trace (ServerConfig.step 1) ServerConfig.boot
        (ServerConfig.startup ⟨0, 0, 1⟩))).ep.cq.queue = [] ∧
      (last ServerConfig.boot (trace (ServerConfig.step 1) ServerConfig.boot
        (ServerConfig.startup ⟨0, 0, 1⟩))).ep.cq.armed = true) ∧
    ((last (ClientConfig.init .big 64) (trace ClientConfig.step (ClientConfig.init .big 64)
        ClientConfig.setup)).ep.cq.queue = [] ∧
      (last (ClientConfig.init .big 64) (trace ClientConfig.step (ClientConfig.init .big 64)
        ClientConfig.setup)).ep.cq.armed = true) :=
  ⟨no_completion_stranded.1 1 .big 64 (List.replicate 64 0) (fun _ => 0) _
      (path_trace _ _) (by decide) (by decide) ⟨by decide, by decide⟩,
    no_completion_stranded.2 .big 64 _ (path_trace _ _) (by decide) (by decide)
      ⟨by decide, by decide⟩⟩

end MegaVM
