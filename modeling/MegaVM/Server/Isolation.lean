import MegaVM.Server.Machine

/-!
# One listener, one context

`bind_server` listens with a backlog of 3, every child id inherits the
listener's context, and the `CONNECT_REQUEST` arm of the CM handler
stores the new child id and lowers `state` whoever is being served.

`SessionIsolated` is what a session is owed: its child id stays in the
context, no later request moves `state` back, and no child id is left
open. A complete run has it exactly when no request comes, or a single
one on which `bind_server` returns 0 (`sessionIsolated_iff`).
-/

namespace MegaVM

open TestState

/-! ## Requests and closed ids in the history -/

/-- The child id the CM delivered. -/
def Obs.request? : Obs → Option CmId
  | .delivered id => some id
  | _ => none

/-- The id that was accepted or destroyed. -/
def Obs.closed? : Obs → Option CmId
  | .accepted id | .destroyed id => some id
  | _ => none

def Obs.isDestroyed : Obs → Bool
  | .destroyed _ => true
  | _ => false

namespace Endpoint

/-- The child ids delivered, latest first. -/
def requests (e : Endpoint) : List CmId := e.log.filterMap Obs.request?

/-- The ids accepted or destroyed, latest first. -/
def closed (e : Endpoint) : List CmId := e.log.filterMap Obs.closed?

/-- The session's id has been destroyed. -/
def ended (e : Endpoint) : Bool := e.log.any Obs.isDestroyed

/-- A turn of the poll loop touches no child id and delivers no request. -/
theorem drainOne_request (cb : IbContext) (wc : Wc) (ret : Int) :
    (drainOne serverHook cb wc ret).cb.childCmId = cb.childCmId ∧
      ((drainOne serverHook cb wc ret).cb.state = connectRequest →
        cb.state = connectRequest) := by
  unfold drainOne
  cases wc.status with
  | wrFlushErr => exact ⟨rfl, id⟩
  | failure => exact ⟨rfl, nofun⟩
  | success =>
      cases wc.opcode with
      | send => exact ⟨rfl, id⟩
      | rdmaWrite | rdmaRead => exact ⟨rfl, nofun⟩
      | other => exact ⟨rfl, nofun⟩
      | recv =>
          dsimp only [serverHook, serverRecv]
          by_cases hsrv : cb.server = 0
          · by_cases hret : ret = 0 <;> simp [hsrv, hret, gotoError]
          · by_cases hlen : wc.byteLen = sizeofRdmaInfo
            · by_cases hret : ret = 0
              · simp only [hsrv, hlen, hret, ne_eq, not_true_eq_false, not_false_eq_true,
                  if_true, if_false, true_and]
                split <;> nofun
              · simp [hsrv, hlen, hret, gotoError]
            · simp [hsrv, hlen, gotoError]

theorem cmaEventHandler_request (cb : IbContext) {event : CmEvent}
    (h : event ≠ .connectRequest) (id : CmId) (ret : Int) :
    (cmaEventHandler cb event id ret).1.childCmId = cb.childCmId ∧
      ((cmaEventHandler cb event id ret).1.state = connectRequest →
        cb.state = connectRequest) := by
  cases event with
  | connectRequest => exact absurd rfl h
  | established => by_cases hsrv : cb.server = 0 <;> simp [cmaEventHandler, hsrv]
  | _ => simp [cmaEventHandler]

/-- Between two states of the endpoint no id is delivered or closed, and
`state` does not become `CONNECT_REQUEST`. -/
structure NoRequest (e e' : Endpoint) : Prop where
  requests : e'.requests = e.requests
  closed : e'.closed = e.closed
  ended : e'.ended = e.ended
  child : e'.cb.childCmId = e.cb.childCmId
  state : e'.cb.state = connectRequest → e.cb.state = connectRequest

theorem NoRequest.of_log {e e' : Endpoint} (hlog : e'.log = e.log)
    (hid : e'.cb.childCmId = e.cb.childCmId)
    (hst : e'.cb.state = connectRequest → e.cb.state = connectRequest) : NoRequest e e' :=
  ⟨by simp only [Endpoint.requests, hlog], by simp only [Endpoint.closed, hlog],
    by simp only [Endpoint.ended, hlog], hid, hst⟩

/-- A move of the endpoint delivers an id if it is a `CONNECT_REQUEST`,
and closes none. -/
theorem step_requests {e e' : Endpoint} {l : EpLabel} (h : e.step serverHook l = some e') :
    (∃ id ret, l = .cm .connectRequest id ret ∧ e'.requests = id :: e.requests ∧
        e'.cb.childCmId = id ∧ e'.closed = e.closed ∧ e'.ended = e.ended) ∨
      ((∀ id ret, l ≠ .cm .connectRequest id ret) ∧ NoRequest e e') := by
  by_cases hcm : ∃ event id ret, l = .cm event id ret
  · obtain ⟨event, id, ret, rfl⟩ := hcm
    simp only [step, Option.some.injEq] at h
    subst h
    by_cases hev : event = .connectRequest
    · subst hev
      exact .inl ⟨id, ret, rfl, rfl, rfl, rfl, rfl⟩
    · obtain ⟨hid, hst⟩ := cmaEventHandler_request e.cb hev id ret
      exact .inr ⟨by simp [hev], .of_log (by simp [cm, hev]) hid hst⟩
  · push Not at hcm
    refine .inr ⟨fun id ret => hcm _ id ret, ?_⟩
    by_cases hp : ∃ ret, l = .cqPoll ret
    · obtain ⟨ret, rfl⟩ := hp
      obtain ⟨-, ⟨-, rfl⟩ | ⟨wc, rest, -, rfl⟩⟩ := step_poll h
      · exact .of_log rfl rfl id
      · obtain ⟨hid, hst⟩ := drainOne_request e.cb wc ret
        exact ⟨rfl, rfl, rfl, hid, hst⟩
    · push Not at hp
      by_cases he : l = .cqPollErr
      · subst he
        obtain ⟨-, rfl⟩ := step_cqPollErr h
        exact .of_log rfl rfl (by simp)
      · obtain ⟨⟨buf, hcb⟩, hlog⟩ := step_cb h hcm hp he
        exact .of_log hlog (by rw [hcb]) (by rw [hcb]; exact id)

end Endpoint

/-! ## The session of the main thread -/

/-- The points between the return of 0 from `bind_server` and
`rdma_destroy_id(child_cm_id)`. -/
def InSession : ServerPc → Bool
  | .bindAddr | .listen | .bindWait | .bindTest | .destroyListener | .freed => false
  | _ => true

/-- A session begins with `CONNECT_REQUEST` at the test of `bind_server`
and ends with the destruction of the child id; only in it the main thread
accepts or destroys an id, and that is the child id. -/
theorem serverMain_session {N : Nat} {len : Option Nat} {inp : MainIn} {cb cb' : IbContext}
    {pc pc' : ServerPc} {call : Call}
    (h : serverMain N len inp cb pc = some (cb', pc', call)) :
    cb'.childCmId = cb.childCmId ∧
      (InSession pc = true → InSession pc' = true ∨ call = .destroyId cb.childCmId) ∧
      (InSession pc' = true →
        InSession pc = true ∨ (pc = .bindTest ∧ cb.state = connectRequest)) ∧
      ∀ id, call = .accept id ∨ call = .destroyId id →
        InSession pc = true ∧ id = cb.childCmId := by
  cases serverMain_move h <;> refine ⟨rfl, ?_, ?_, ?_⟩ <;> simp_all [InSession]

/-- What a call adds to the closed ids. -/
theorem Endpoint.call_closed {inp : MainIn} {e e' : Endpoint} {call : Call}
    (h : e.call inp call = some e') :
    e'.requests = e.requests ∧ e'.cb = e.cb ∧
      (e'.closed = e.closed ∨
        ∃ id, (call = .accept id ∨ call = .destroyId id) ∧ e'.closed = id :: e.closed) ∧
      (e'.ended = true ↔ e.ended = true ∨ ∃ id, call = .destroyId id) := by
  cases call with
  | postSend wr sge =>
      simp only [Endpoint.call, Option.some.injEq, Endpoint.postSend] at h
      subst h
      by_cases hret : inp.ret = 0 <;>
        simp [hret, requests, closed, ended, List.filterMap_cons, Obs.request?, Obs.closed?,
          Obs.isDestroyed]
  | destroyQp =>
      simp only [Endpoint.call, Endpoint.destroyQp] at h
      split at h <;> cases h
      simp [requests, closed, ended]
  | _ =>
      simp only [Endpoint.call, Option.some.injEq] at h
      subst h
      simp [requests, closed, ended, List.filterMap_cons, Obs.request?, Obs.closed?,
        Obs.isDestroyed]

namespace ServerConfig

/-- A step other than a `CONNECT_REQUEST`. -/
structure SessionStep (c c' : ServerConfig) : Prop where
  requests : c'.ep.requests = c.ep.requests
  child : c'.ep.cb.childCmId = c.ep.cb.childCmId
  state : c'.ep.cb.state = connectRequest → c.ep.cb.state = connectRequest
  begins : InSession c'.pc = true →
    InSession c.pc = true ∨ (c.pc = .bindTest ∧ c.ep.cb.state = connectRequest)
  ends : InSession c.pc = true → InSession c'.pc = true ∨ c'.ep.ended = true
  ended : c.ep.ended = true → c'.ep.ended = true
  closed : ∀ id ∈ c'.ep.closed,
    id ∈ c.ep.closed ∨ (InSession c.pc = true ∧ id = c.ep.cb.childCmId)

/-- A step that leaves the main thread where it is. -/
theorem SessionStep.of_quiet {c c' : ServerConfig} (hpc : c'.pc = c.pc)
    (h : Endpoint.NoRequest c.ep c'.ep) : SessionStep c c' where
  requests := h.requests
  child := h.child
  state := h.state
  begins hin := .inl (hpc ▸ hin)
  ends hin := .inl (hpc ▸ hin)
  ended he := h.ended ▸ he
  closed _ hid := .inl (h.closed ▸ hid)

/-- A step delivers an id, or it is a `SessionStep`. -/
theorem step_session {N : Nat} {c c' : ServerConfig} {l : ServerLabel}
    (h : step N c l = some c') :
    (∃ id ret, l = .ep (.cm .connectRequest id ret) ∧ c'.pc = c.pc ∧
        c'.ep.requests = id :: c.ep.requests ∧ c'.ep.cb.childCmId = id ∧
        c'.ep.closed = c.ep.closed ∧ c'.ep.ended = c.ep.ended) ∨
      ((∀ id ret, l ≠ .ep (.cm .connectRequest id ret)) ∧ SessionStep c c') := by
  cases l with
  | main inp =>
      obtain ⟨cb, call, hm, hep, -, -⟩ := step_main_call h
      obtain ⟨hid, hends, hbegins, hcloses⟩ := serverMain_session hm
      have hst := serverMain_state hm
      obtain ⟨hreq, hcb, hclosed, hended⟩ := Endpoint.call_closed hep
      refine .inr ⟨nofun, hreq, by rw [hcb]; exact hid, by rw [hcb, ← hst]; exact fun h => h,
        hbegins, ?_, fun he => hended.mpr (.inl he), ?_⟩
      · intro hin
        exact (hends hin).imp_right fun hd => hended.mpr (.inr ⟨_, hd⟩)
      · intro id hmem
        rcases hclosed with hsame | ⟨id', hwhich, hcons⟩
        · exact .inl (hsame ▸ hmem)
        · rw [hcons] at hmem
          rcases List.mem_cons.mp hmem with rfl | hmem
          · exact .inr (hcloses _ hwhich)
          · exact .inl hmem
  | move =>
      obtain ⟨p, rest, -, -, -, hep, hpc, -⟩ := step_move h
      exact .inr ⟨nofun, .of_quiet hpc (.of_log (by rw [hep]) (by rw [hep])
        (by rw [hep]; exact id))⟩
  | ep l =>
      obtain ⟨-, ep, he, rfl⟩ := step_ep h
      rcases Endpoint.step_requests he with ⟨id, ret, rfl, hreq, hid, hclosed, hended⟩ | ⟨hl, hno⟩
      · exact .inl ⟨id, ret, rfl, rfl, hreq, hid, hclosed, hended⟩
      · exact .inr ⟨fun id ret heq => hl id ret (ServerLabel.ep.inj heq), .of_quiet rfl hno⟩
  | reuse mem =>
      obtain ⟨-, rfl⟩ := step_reuse h
      exact .inr ⟨nofun, .of_quiet rfl (.of_log rfl rfl id)⟩

/-! ## Runs whose ids are fresh -/

/-- The CM delivers an id once. -/
def Fresh (c : ServerConfig) : ServerLabel → Prop
  | .ep (.cm .connectRequest id _) => id ∉ c.ep.requests
  | _ => True

instance (c : ServerConfig) (l : ServerLabel) : Decidable (Fresh c l) := by
  unfold Fresh
  split <;> infer_instance

def freshStep (N : Nat) (c : ServerConfig) (l : ServerLabel) : Option ServerConfig :=
  if Fresh c l then step N c l else none

theorem freshStep_eq_some {N : Nat} {c c' : ServerConfig} {l : ServerLabel}
    (h : freshStep N c l = some c') : Fresh c l ∧ step N c l = some c' := by
  unfold freshStep at h
  split at h
  · exact ⟨‹_›, h⟩
  · cases h

/-- What a session is owed along a run. -/
structure SessionIsolated (s : ServerConfig) (p : List (ServerLabel × ServerConfig)) :
    Prop where
  /-- From `bind_server` to `rdma_destroy_id` the context holds the id of
  the first request. -/
  child : ∀ c ∈ Runs.states s p, InSession c.pc = true →
    c.ep.requests.getLast? = some c.ep.cb.childCmId
  /-- A later request does not move `state` back. -/
  forward : ∀ t ∈ Runs.steps s p, InSession t.1.pc = true →
    (∃ id ret, t.2.1 = .ep (.cm .connectRequest id ret)) →
    t.1.ep.cb.state ≤ t.2.2.ep.cb.state
  /-- No id is left open. -/
  closed : ∀ id ∈ (Runs.last s p).ep.requests, id ∈ (Runs.last s p).ep.closed

/-- What holds of the ids in every run. -/
structure IdInv (c : ServerConfig) : Prop where
  latest : c.ep.requests = [] ∨ c.ep.requests.head? = some c.ep.cb.childCmId
  nodup : c.ep.requests.Nodup
  begun : InSession c.pc = true → c.ep.requests ≠ []
  pending : c.ep.cb.state = connectRequest → c.ep.requests ≠ []
  closed : ∀ id ∈ c.ep.closed, id ∈ c.ep.requests

theorem IdInv.init (host : Endian) (size : Nat) (mem : List Byte)
    (remote : BitVec 64 → Byte) : IdInv (init host size mem remote) :=
  ⟨.inl rfl, List.nodup_nil, nofun, nofun, fun _ h => h⟩

theorem IdInv.child_mem {c : ServerConfig} (h : IdInv c) (hne : c.ep.requests ≠ []) :
    c.ep.cb.childCmId ∈ c.ep.requests :=
  List.mem_of_head? (h.latest.resolve_left hne)

theorem IdInv.step {N : Nat} {c c' : ServerConfig} {l : ServerLabel} (h : IdInv c)
    (hs : freshStep N c l = some c') : IdInv c' := by
  obtain ⟨hfresh, hs⟩ := freshStep_eq_some hs
  rcases step_session hs with ⟨id, ret, rfl, hpc, hreq, hid, hclosed, -⟩ | ⟨-, hst⟩
  · refine ⟨.inr (by rw [hreq, hid]; rfl), ?_, ?_, ?_, ?_⟩
    · rw [hreq]
      exact List.nodup_cons.mpr ⟨hfresh, h.nodup⟩
    · simp [hreq]
    · simp [hreq]
    · intro x hx
      rw [hclosed] at hx
      rw [hreq]
      exact List.mem_cons_of_mem id (h.closed x hx)
  · refine ⟨?_, hst.requests ▸ h.nodup, ?_, ?_, ?_⟩
    · rw [hst.requests, hst.child]
      exact h.latest
    · intro hin
      rw [hst.requests]
      exact (hst.begins hin).elim h.begun fun hb => h.pending hb.2
    · intro hreq
      rw [hst.requests]
      exact h.pending (hst.state hreq)
    · intro x hx
      rw [hst.requests]
      rcases hst.closed x hx with hold | ⟨hin, rfl⟩
      · exact h.closed x hold
      · exact h.child_mem (h.begun hin)

/-! ## One request -/

section Runs
variable {N : Nat} {s : ServerConfig} {p : List (ServerLabel × ServerConfig)}

theorem requests_suffix {c c' : ServerConfig}
    (h : Runs.Reach (freshStep N) (fun _ _ => True) c c') :
    c.ep.requests <:+ c'.ep.requests := by
  refine h.invariant (P := fun d => c.ep.requests <:+ d.ep.requests) List.suffix_rfl ?_
  intro a l b ha _ hs
  rcases step_session (freshStep_eq_some hs).2 with ⟨id, ret, -, -, hreq, -⟩ | ⟨-, hst⟩
  · rw [hreq]
    exact ha.trans (List.suffix_cons id _)
  · rw [hst.requests]
    exact ha

/-- A session that has begun lasts until its id is destroyed. -/
theorem session_lasts {c c' : ServerConfig}
    (h : Runs.Reach (freshStep N) (fun _ _ => True) c c') (hin : InSession c.pc = true) :
    InSession c'.pc = true ∨ c'.ep.ended = true := by
  refine h.invariant (P := fun d => InSession d.pc = true ∨ d.ep.ended = true) (.inl hin) ?_
  intro a l b ha _ hs
  rcases step_session (freshStep_eq_some hs).2 with ⟨id, ret, -, hpc, -, -, -, hend⟩ | ⟨-, hst⟩
  · rw [hpc, hend]
    exact ha
  · exact ha.elim hst.ends fun he => .inr (hst.ended he)

theorem closed_ne_nil {e : Endpoint} (h : e.ended = true) : ∃ id, id ∈ e.closed := by
  obtain ⟨o, ho, hd⟩ := List.any_eq_true.mp h
  cases o with
  | destroyed id => exact ⟨id, List.mem_filterMap.mpr ⟨.destroyed id, ho, rfl⟩⟩
  | _ => cases hd

/-- One request at most, and no session missed: the session is isolated. -/
theorem isolated_of_single (h : Runs.Path (freshStep N) s p) (hinit : IdInv s)
    (hend : InSession (Runs.last s p).pc = false)
    (hone : (Runs.last s p).ep.requests.length ≤ 1)
    (hsess : (Runs.last s p).ep.requests ≠ [] →
      ∃ c ∈ Runs.states s p, InSession c.pc = true) : SessionIsolated s p := by
  have hinv : ∀ c ∈ Runs.states s p, IdInv c :=
    h.invariant (Q := fun _ => True) (fun _ _ => trivial) hinit fun _ _ _ _ ha hs => ha.step hs
  have hlen : ∀ c ∈ Runs.states s p, c.ep.requests.length ≤ 1 := fun c hc =>
    Nat.le_trans (requests_suffix (h.reach_last c hc)).length_le hone
  refine ⟨?_, ?_, ?_⟩
  · intro c hc hin
    have hc' := hinv c hc
    have hle := hlen c hc
    have hhead := hc'.latest.resolve_left (hc'.begun hin)
    cases hreq : c.ep.requests with
    | nil => exact absurd hreq (hc'.begun hin)
    | cons id rest =>
        rw [hreq, List.length_cons] at hle
        have hnil : rest = [] := List.eq_nil_of_length_eq_zero (by omega)
        rw [hreq, List.head?_cons] at hhead
        rw [hnil, ← hhead]
        rfl
  · rintro ⟨a, l, b⟩ ht hin ⟨id, ret, rfl⟩
    have hmem := Runs.steps_mem_states ht
    have hs : step N a (.ep (.cm .connectRequest id ret)) = some b :=
      (freshStep_eq_some (Runs.steps_mem_step h ht)).2
    have hle : b.ep.requests.length ≤ 1 := hlen b hmem.2
    have hne := (hinv a hmem.1).begun hin
    rcases step_session hs with ⟨id', ret', -, -, hreq, -⟩ | ⟨hl, -⟩
    · have hpos := List.length_pos_of_ne_nil hne
      rw [hreq, List.length_cons] at hle
      omega
    · exact absurd rfl (hl id ret)
  · intro id hid
    obtain ⟨c, hc, hin⟩ := hsess (List.ne_nil_of_mem hid)
    have hended := (session_lasts (h.reach_last c hc) hin).resolve_left (by simp [hend])
    obtain ⟨x, hx⟩ := closed_ne_nil hended
    have hlast := hinv _ (Runs.last_mem_states s p)
    obtain ⟨d, hd⟩ := List.length_eq_one_iff.mp
      (Nat.le_antisymm hone (List.length_pos_of_mem hid))
    have hx' := hlast.closed x hx
    rw [hd, List.mem_singleton] at hid hx'
    rw [hid, ← hx']
    exact hx

/-- The main thread makes the test of `bind_server`, and `state` is
`CONNECT_REQUEST`. -/
def Bound (t : ServerConfig × ServerLabel × ServerConfig) : Prop :=
  t.1.pc = .bindTest ∧ t.1.ep.cb.state = connectRequest ∧ ∃ inp, t.2.1 = .main inp

/-- A session is what follows a successful test of `bind_server`. -/
theorem session_iff_bound (h : Runs.Path (freshStep N) s p) (h0 : InSession s.pc = false) :
    (∃ c ∈ Runs.states s p, InSession c.pc = true) ↔ ∃ t ∈ Runs.steps s p, Bound t := by
  constructor
  · intro hex
    obtain ⟨⟨a, l, b⟩, ht, hout, hin⟩ :=
      Runs.exists_entering (P := fun c : ServerConfig => InSession c.pc = true)
        (by simp [h0]) hex
    have hs : step N a l = some b := (freshStep_eq_some (Runs.steps_mem_step h ht)).2
    rcases step_session hs with ⟨id, ret, -, hpc, -⟩ | ⟨-, hst⟩
    · exact absurd (hpc ▸ hin) hout
    · obtain ⟨hpc, hreq⟩ := (hst.begins hin).resolve_left hout
      refine ⟨(a, l, b), ht, hpc, hreq, ?_⟩
      -- only a main-thread step leaves the test
      cases l with
      | main inp => exact ⟨inp, rfl⟩
      | move =>
          obtain ⟨_, _, -, -, -, -, hsame, -⟩ := step_move hs
          exact absurd (hsame ▸ hin) hout
      | ep l =>
          obtain ⟨-, _, -, rfl⟩ := step_ep hs
          exact absurd hin hout
      | reuse mem =>
          obtain ⟨-, rfl⟩ := step_reuse hs
          exact absurd hin hout
  · rintro ⟨⟨a, l, b⟩, ht, hpc, hreq, inp, rfl⟩
    have hs : step N a (.main inp) = some b :=
      (freshStep_eq_some (Runs.steps_mem_step h ht)).2
    obtain ⟨cb, call, hm, -, -, -⟩ := step_main_call hs
    simp only [serverMain, show a.pc = .bindTest from hpc,
      show a.ep.cb.state = connectRequest from hreq, Option.some.injEq, Prod.mk.injEq] at hm
    refine ⟨b, (Runs.steps_mem_states ht).2, ?_⟩
    rw [← hm.2.1]
    rfl

/-! ## Isolation asks for one request -/

/-- Without a session no id is ever closed. -/
theorem closed_nil_of_no_session (h : Runs.Path (freshStep N) s p)
    (hnone : ∀ c ∈ Runs.states s p, InSession c.pc = false) (h0 : s.ep.closed = []) :
    (Runs.last s p).ep.closed = [] := by
  refine h.invariant (P := fun c => c.ep.closed = []) hnone h0 ?_ _ (Runs.last_mem_states s p)
  intro a l b hno ha hs
  rcases step_session (freshStep_eq_some hs).2 with ⟨id, ret, -, -, -, -, hclosed, -⟩ | ⟨-, hst⟩
  · rw [hclosed, ha]
  · refine List.eq_nil_iff_forall_not_mem.mpr fun id hid => ?_
    rcases hst.closed id hid with hold | ⟨hin, -⟩
    · simp [ha] at hold
    · simp [hno] at hin

/-- If the context keeps the first id during the session, no other id is
ever closed. -/
theorem closed_first (h : Runs.Path (freshStep N) s p) (hinit : IdInv s)
    (h0 : s.ep.closed = []) (hiso : SessionIsolated s p) :
    ∀ id ∈ (Runs.last s p).ep.closed, (Runs.last s p).ep.requests.getLast? = some id := by
  have hall := h.invariant
    (P := fun c => IdInv c ∧ ∀ id ∈ c.ep.closed, c.ep.requests.getLast? = some id)
    hiso.child ⟨hinit, by simp [h0]⟩ ?_ _ (Runs.last_mem_states s p)
  · exact hall.2
  · rintro a l b hchild ⟨ha, hfirst⟩ hs
    refine ⟨ha.step hs, fun id hid => ?_⟩
    rcases step_session (freshStep_eq_some hs).2 with
      ⟨id', ret, -, -, hreq, -, hclosed, -⟩ | ⟨-, hst⟩
    · rw [hclosed] at hid
      have hlast := hfirst id hid
      rw [hreq, List.getLast?_cons, hlast]
      rfl
    · rw [hst.requests]
      rcases hst.closed id hid with hold | ⟨hin, rfl⟩
      · exact hfirst id hold
      · exact hchild hin

/-- **A complete run isolates its session exactly when no request comes,
or a single one which the test of `bind_server` sees.** -/
theorem sessionIsolated_iff {host : Endian} {size : Nat} {mem : List Byte}
    {remote : BitVec 64 → Byte}
    (h : Runs.Path (freshStep N) (init host size mem remote) p)
    (hend : (Runs.last (init host size mem remote) p).pc = .freed) :
    SessionIsolated (init host size mem remote) p ↔
      (Runs.last (init host size mem remote) p).ep.requests = [] ∨
        ((Runs.last (init host size mem remote) p).ep.requests.length = 1 ∧
          ∃ t ∈ Runs.steps (init host size mem remote) p, Bound t) := by
  have hinit := IdInv.init host size mem remote
  rw [← session_iff_bound h rfl]
  constructor
  · intro hiso
    refine or_iff_not_imp_left.mpr fun hne => ?_
    have hfirst := closed_first h hinit rfl hiso
    refine ⟨?_, ?_⟩
    · have hinv : IdInv (Runs.last (init host size mem remote) p) :=
        h.invariant (Q := fun _ => True) (fun _ _ => trivial) hinit
          (fun _ _ _ _ ha hs => ha.step hs) _ (Runs.last_mem_states _ p)
      have hnodup := hinv.nodup
      match hreq : (Runs.last (init host size mem remote) p).ep.requests with
      | [] => exact absurd hreq hne
      | [_] => rfl
      | a :: b :: rest =>
          -- both ids are closed, so both are the first one
          have ha := hfirst a (hiso.closed a (by simp [hreq]))
          have hb := hfirst b (hiso.closed b (by simp [hreq]))
          rw [ha, Option.some.injEq] at hb
          simp [hreq, hb] at hnodup
    · by_contra hno
      push Not at hno
      have hnil := closed_nil_of_no_session h (fun c hc => by simpa using hno c hc) rfl
      obtain ⟨id, hid⟩ := List.exists_mem_of_ne_nil _ hne
      have := hiso.closed id hid
      simp [hnil] at this
  · intro hcond
    refine isolated_of_single h hinit (by rw [hend]; rfl) ?_ ?_
    · rcases hcond with hnil | ⟨hone, -⟩
      · simp [hnil]
      · omega
    · intro hne
      exact (hcond.resolve_left hne).2

end Runs

/-- One request, and `rdma_accept` fails. -/
def oneRequest : List ServerLabel :=
  [.main .ok, .main .ok, .ep (.cm .connectRequest 7 0)] ++ List.replicate 5 (.main .ok) ++
    [.main { MainIn.ok with ret := -1 }] ++ List.replicate 4 (.main .ok)

/-- A second request while the first is served. -/
def twoRequests : List ServerLabel :=
  [.main .ok, .main .ok, .ep (.cm .connectRequest 7 0), .main .ok, .main .ok,
    .ep (.cm .connectRequest 8 0)]

theorem sessionIsolated_oneRequest :
    SessionIsolated boot (Runs.trace (freshStep 10) boot oneRequest) :=
  (sessionIsolated_iff (Runs.path_trace _ _) rfl).mpr
    (.inr ⟨rfl, _, List.get_mem _ ⟨4, by decide⟩, rfl, rfl, _, rfl⟩)

theorem not_sessionIsolated :
    ¬ ∀ p, Runs.Path (freshStep 10) boot p → SessionIsolated boot p := by
  intro hall
  have h := hall _ (Runs.path_trace boot twoRequests)
  have hchild := h.child _ (Runs.last_mem_states _ _) rfl
  exact absurd hchild (by decide)

end ServerConfig

end MegaVM
