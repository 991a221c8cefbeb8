import MegaVM.Client.Machine

/-!
# The waits of the client

`megaVM_bind_client`, `megaVM_connect_client` and `megaVM_test_client`
each wait for a value of `state`. Who would bring it is the connection
manager, as long as it works on a call of the client, and after that the
peer, as long as the connection is up and has carried the advertisement.

`Link` records both along a run. A client `Hangs` that is blocked when
neither is left. A run is free of it exactly when each of its steps heeds
what a wait needs (`hangFree_iff`).
-/

namespace MegaVM

open TestState Runs

/-! ## What there is to wait for -/

/-- The call the connection manager works on. -/
inductive CmOp
  | idle | resolveAddr | resolveRoute | connect
  deriving DecidableEq, Repr

inductive Conn
  | never | up | down
  deriving DecidableEq, Repr

structure Link where
  op : CmOp
  conn : Conn
  /-- `ib_post_send` of the advertisement has failed. -/
  refused : Bool
  deriving DecidableEq, Repr

namespace Link

def fresh : Link := ⟨.idle, .never, false⟩

/-- A call of the main thread that has returned `ret`. -/
def call (k : Link) (ret : Int) : ClientPc → Link
  | .resolveAddr => if ret = 0 then { k with op := .resolveAddr } else k
  | .connect => if ret = 0 then { k with op := .connect } else k
  | .testPost => { k with refused := ret != 0 }
  | _ => k

/-- An event; `ret` is what `rdma_resolve_route` returns in the
`ADDR_RESOLVED` arm. No event comes of a call when the device is gone. -/
def event (k : Link) (ret : Int) : CmEvent → Link
  | .addrResolved => { k with op := if ret = 0 then .resolveRoute else .idle }
  | .established => { k with op := .idle, conn := .up }
  | .routeResolved | .addrError | .routeError | .connectError | .unreachable | .rejected
  | .deviceRemoval => { k with op := .idle }
  | .disconnected => { k with conn := .down }
  | .connectRequest | .other => k

/-- The record of a run. -/
def step (c : ClientConfig) (k : Link) : ClientLabel → Link
  | .main inp => k.call inp.ret c.pc
  | .ep (.cm ev _ ret) => k.event ret ev
  | .move | .ep _ => k

/-- No call is in progress, and the connection was never there, is gone or
has not carried the advertisement. -/
def Dead (k : Link) : Prop :=
  k.op = .idle ∧ (k.conn = .never ∨ k.conn = .down ∨ k.refused = true)

/-- The connection is there and no advertisement was refused. -/
def Sound (k : Link) : Prop := k.conn = .up ∧ k.refused = false

instance (k : Link) : Decidable k.Dead := inferInstanceAs (Decidable (_ ∧ _))
instance (k : Link) : Decidable k.Sound := inferInstanceAs (Decidable (_ ∧ _))

theorem not_dead_iff {k : Link} : ¬ k.Dead ↔ k.op ≠ .idle ∨ k.Sound := by
  obtain ⟨op, conn, refused⟩ := k
  cases conn <;> cases refused <;> simp [Dead, Sound]

/-- The events the connection manager delivers: those of the call it works
on, and the end of a connection that is up. -/
def Delivers (k : Link) : CmEvent → Prop
  | .addrResolved | .addrError => k.op = .resolveAddr
  | .routeResolved | .routeError => k.op = .resolveRoute
  | .established | .connectError | .unreachable | .rejected => k.op = .connect
  | .disconnected => k.conn = .up
  | .connectRequest => False
  | .deviceRemoval | .other => True

instance (k : Link) : (ev : CmEvent) → Decidable (k.Delivers ev)
  | .addrResolved | .addrError => inferInstanceAs (Decidable (k.op = .resolveAddr))
  | .routeResolved | .routeError => inferInstanceAs (Decidable (k.op = .resolveRoute))
  | .established | .connectError | .unreachable | .rejected =>
      inferInstanceAs (Decidable (k.op = .connect))
  | .disconnected => inferInstanceAs (Decidable (k.conn = .up))
  | .connectRequest => .isFalse id
  | .deviceRemoval | .other => .isTrue trivial

end Link

namespace ClientConfig

/-- What the waits test `state` against. -/
def waitBound : ClientPc → Option TestState
  | .bindWait => some routeResolved
  | .connectWait => some connected
  | .testWait => some rdmaWriteAdv
  | _ => none

/-- The main thread is in a wait whose condition is false. -/
def Blocked (c : ClientConfig) : Prop := ∃ bound ∈ waitBound c.pc, ¬ bound ≤ c.ep.cb.state

/-- It is blocked, and nothing is left that could wake it up. -/
def Hangs (t : ClientConfig × Link) : Prop := Blocked t.1 ∧ t.2.Dead

instance (c : ClientConfig) : Decidable (Blocked c) :=
  inferInstanceAs (Decidable (∃ bound ∈ waitBound c.pc, ¬ bound ≤ c.ep.cb.state))

instance (t : ClientConfig × Link) : Decidable (Hangs t) := inferInstanceAs (Decidable (_ ∧ _))

/-- The events that leave a wait for `bound` something to wait for. -/
def HeedsEvent (bound state : TestState) (k : Link) (ret : Int) : CmEvent → Prop
  | .addrResolved => ret = 0 ∨ k.Sound
  | .routeResolved => bound ≤ routeResolved ∨ k.Sound
  | .connectRequest => k.op ≠ .idle ∨ k.Sound
  | .established => bound ≤ connected ∨ k.refused = false
  | .deviceRemoval => bound ≤ state ∨ k.Sound
  | _ => True

/-- The steps that leave every wait something to wait for: in a wait,
`rdma_resolve_route` does not fail, no event comes late and the device
stays; and the advertisement is posted on a connection that is up, or while the
connection manager still works on it, or when the wait is over before it
begins. -/
def Heeds (t : ClientConfig × Link) : ClientLabel → Prop
  | .main inp => t.1.pc = .testPost →
      rdmaWriteAdv ≤ t.1.ep.cb.state ∨ t.2.op ≠ .idle ∨ (t.2.conn = .up ∧ inp.ret = 0)
  | .ep (.cm ev _ ret) =>
      ∀ bound ∈ waitBound t.1.pc, HeedsEvent bound t.1.ep.cb.state t.2 ret ev
  | .move | .ep _ => True

instance (bound state : TestState) (k : Link) (ret : Int) :
    (ev : CmEvent) → Decidable (HeedsEvent bound state k ret ev)
  | .addrResolved => inferInstanceAs (Decidable (ret = 0 ∨ k.Sound))
  | .routeResolved => inferInstanceAs (Decidable (bound ≤ routeResolved ∨ k.Sound))
  | .connectRequest => inferInstanceAs (Decidable (k.op ≠ .idle ∨ k.Sound))
  | .established => inferInstanceAs (Decidable (bound ≤ connected ∨ k.refused = false))
  | .deviceRemoval => inferInstanceAs (Decidable (bound ≤ state ∨ k.Sound))
  | .addrError | .routeError | .connectError | .unreachable | .rejected | .disconnected
  | .other => .isTrue trivial

instance (t : ClientConfig × Link) : (l : ClientLabel) → Decidable (Heeds t l)
  | .main inp => inferInstanceAs (Decidable (t.1.pc = .testPost →
      rdmaWriteAdv ≤ t.1.ep.cb.state ∨ t.2.op ≠ .idle ∨ (t.2.conn = .up ∧ inp.ret = 0)))
  | .ep (.cm ev _ ret) =>
      inferInstanceAs (Decidable
        (∀ bound ∈ waitBound t.1.pc, HeedsEvent bound t.1.ep.cb.state t.2 ret ev))
  | .move => .isTrue trivial
  | .ep .cqEnter | .ep (.cqPoll _) | .ep .cqPollErr | .ep .complete | .ep .fail | .ep .flush
  | .ep (.land ..) | .ep .flushRecv | .ep .breakQp => .isTrue trivial

/-- The connection manager delivers only the events it has. -/
def Orderly (t : ClientConfig × Link) : ClientLabel → Prop
  | .ep (.cm ev _ _) => t.2.Delivers ev
  | .main _ | .move | .ep _ => True

instance (t : ClientConfig × Link) : (l : ClientLabel) → Decidable (Orderly t l)
  | .ep (.cm ev _ _) => inferInstanceAs (Decidable (t.2.Delivers ev))
  | .main _ | .move => .isTrue trivial
  | .ep .cqEnter | .ep (.cqPoll _) | .ep .cqPollErr | .ep .complete | .ep .fail | .ep .flush
  | .ep (.land ..) | .ep .flushRecv | .ep .breakQp => .isTrue trivial

/-! ## One step -/

/-- What every run of the client keeps. -/
structure Base (c : ClientConfig) : Prop where
  server : c.ep.cb.server = 0
  sqWr : c.ep.cb.mainFields.sqWr.opcode = .send
  sends : SendsOnly c.ep

theorem not_hangs_iff {t : ClientConfig × Link} :
    ¬ Hangs t ↔
      ∀ bound ∈ waitBound t.1.pc, bound ≤ t.1.ep.cb.state ∨ t.2.op ≠ .idle ∨ t.2.Sound := by
  constructor
  · intro h bound hbound
    by_contra hno
    obtain ⟨hst, hlink⟩ := not_or.mp hno
    exact h ⟨⟨bound, hbound, hst⟩, not_not.mp (mt Link.not_dead_iff.mp hlink)⟩
  · rintro h ⟨⟨bound, hbound, hst⟩, hdead⟩
    exact Link.not_dead_iff.mpr ((h bound hbound).resolve_left hst) hdead

theorem waitBound_range {pc : ClientPc} {bound : TestState} (h : bound ∈ waitBound pc) :
    bound = routeResolved ∨ bound = connected ∨ bound = rdmaWriteAdv := by
  cases pc with
  | bindWait => exact .inl (Option.some.inj h).symm
  | connectWait => exact .inr (.inl (Option.some.inj h).symm)
  | testWait => exact .inr (.inr (Option.some.inj h).symm)
  | _ => cases h

/-- **One event during a wait.** -/
theorem event_heeded {cb : IbContext} {bound : TestState} {k : Link} {ev : CmEvent} {id : CmId}
    {ret : Int} (hsrv : cb.server = 0)
    (hb : bound = routeResolved ∨ bound = connected ∨ bound = rdmaWriteAdv)
    (h : bound ≤ cb.state ∨ k.op ≠ .idle ∨ k.Sound) :
    (bound ≤ (cmaEventHandler cb ev id ret).1.state ∨ (k.event ret ev).op ≠ .idle ∨
      (k.event ret ev).Sound) ↔ HeedsEvent bound cb.state k ret ev := by
  -- each wait is over in `ERROR`, and none in the first two states
  have hrange : ¬ bound ≤ addrResolved ∧ ¬ bound ≤ connectRequest ∧ bound ≤ error := by
    rcases hb with rfl | rfl | rfl <;> decide
  cases ev with
  | addrResolved =>
      rw [show (cmaEventHandler cb .addrResolved id ret).1.state = addrResolved from rfl,
        or_iff_right hrange.1]
      by_cases hret : ret = 0 <;> simp [Link.event, HeedsEvent, hret, Link.Sound]
  | routeResolved =>
      show bound ≤ routeResolved ∨ _ ↔ bound ≤ routeResolved ∨ k.Sound
      exact or_congr_right (or_iff_right (not_not.mpr rfl))
  | connectRequest =>
      rw [show (cmaEventHandler cb .connectRequest id ret).1.state = connectRequest from rfl,
        or_iff_right hrange.2.1]
      rfl
  | established =>
      have hst : (cmaEventHandler cb .established id ret).1.state = connected := by
        simp only [cmaEventHandler, if_pos hsrv]
      rw [hst]
      simp [Link.event, HeedsEvent, Link.Sound]
  | deviceRemoval =>
      show bound ≤ cb.state ∨ _ ↔ bound ≤ cb.state ∨ k.Sound
      exact or_congr_right (or_iff_right (not_not.mpr rfl))
  | other => exact iff_of_true h trivial
  | _ => exact iff_of_true (.inl hrange.2.2) trivial

/-- A move of the end by itself lowers `state` below no bound. -/
theorem ep_awake {c : ClientConfig} {ep : Endpoint} {l : EpLabel} (hc : Base c)
    (he : c.ep.step clientHook l = some ep) (hcm : ∀ ev id ret, l ≠ .cm ev id ret)
    {bound : TestState} (hb : bound = routeResolved ∨ bound = connected ∨ bound = rdmaWriteAdv)
    (hst : bound ≤ c.ep.cb.state) : bound ≤ ep.cb.state := by
  -- no READ completes at the client, so nothing but an event lowers `state`
  refine (hc.sends.step hcm he).2 bound ?_ hst
  rcases hb with rfl | rfl | rfl <;> decide

/-- The points a wait is entered from. -/
theorem clientMain_waits {inp : MainIn} {cb cb' : IbContext} {pc pc' : ClientPc} {call : Call}
    (hm : clientMain inp cb pc = some (cb', pc', call)) {bound : TestState}
    (hb : bound ∈ waitBound pc') :
    (inp.ret = 0 ∧ (pc = .resolveAddr ∨ pc = .connect)) ∨ (pc = .testPost ∧ pc' = .testWait ∧
      cb' = cb ∧ call = .postSend cb.sqWr cb.sendSgl) := by
  cases clientMain_move hm with
  | resolving hret => exact .inl ⟨hret, .inl rfl⟩
  | connecting hret => exact .inl ⟨hret, .inr rfl⟩
  | testPost => exact .inr ⟨rfl, rfl, rfl, rfl⟩
  | _ => cases hb

/-- **One step of the client.** -/
theorem hangs_step {t t' : ClientConfig × Link} {l : ClientLabel} (hc : Base t.1)
    (hs : ghost ClientConfig.step Link.step t l = some t') (h : ¬ Hangs t) :
    ¬ Hangs t' ↔ Heeds t l := by
  obtain ⟨c, k⟩ := t
  obtain ⟨c', k'⟩ := t'
  obtain ⟨hstep, rfl⟩ := ghost_eq_some.mp hs
  change c.step l = some c' at hstep
  rw [not_hangs_iff] at h ⊢
  cases l with
  | main inp =>
      obtain ⟨cb, call, hm, hcall⟩ := step_main hstep
      by_cases hpost : c.pc = .testPost
      · -- the advertisement, and then the wait for its answer
        rw [hpost] at hm
        obtain ⟨rfl, hpc, rfl⟩ : c.ep.cb = cb ∧ .testWait = c'.pc ∧
            .postSend c.ep.cb.sqWr c.ep.cb.sendSgl = call := by
          simpa only [clientMain, Option.some.injEq, Prod.mk.injEq] using hm
        have hst : c'.ep.cb.state = c.ep.cb.state := by rw [Endpoint.call_cb hcall]
        have hlink : Link.step c k (.main inp) = { k with refused := inp.ret != 0 } := by
          rw [Link.step, hpost, Link.call]
        simp only [← hpc, waitBound, Option.mem_some_iff, forall_eq', hst, hlink, Heeds, hpost,
          forall_const, Link.Sound, bne_eq_false_iff_eq]
      · refine iff_of_true (fun bound hb => ?_) fun hpc => absurd hpc hpost
        rcases clientMain_waits hm hb with ⟨hret, hpc⟩ | ⟨hpc, -⟩
        · refine .inr (.inl ?_)
          rcases hpc with hpc | hpc <;> simp [Link.step, Link.call, hpc, hret]
        · exact absurd hpc hpost
  | move =>
      obtain ⟨p, rest, -, rfl⟩ := step_move hstep
      exact iff_of_true h trivial
  | ep l =>
      obtain ⟨-, ep, he, rfl⟩ := step_ep hstep
      cases l with
      | cm ev id ret =>
          simp only [Endpoint.step, Option.some.injEq] at he
          subst he
          exact forall₂_congr fun bound hb =>
            event_heeded hc.server (waitBound_range hb) (h bound hb)
      | _ =>
          refine iff_of_true (fun bound hb => ?_) trivial
          exact (h bound hb).imp_left (ep_awake hc he (by simp) (waitBound_range hb))

/-! ## Whole runs -/

theorem clientMain_base {inp : MainIn} {cb cb' : IbContext} {pc pc' : ClientPc} {call : Call}
    (hm : clientMain inp cb pc = some (cb', pc', call)) :
    cb'.server = cb.server ∧ (cb.sqWr.opcode = .send → cb'.sqWr.opcode = .send) ∧
      ∀ wr sge, call = .postSend wr sge → wr = cb.sqWr := by
  cases clientMain_move hm <;> refine ⟨rfl, ?_, ?_⟩ <;> simp [setupSendRecv, formatSend]

theorem Base.step {c c' : ClientConfig} {l : ClientLabel} (h : Base c) (hs : c.step l = some c') :
    Base c' := by
  obtain ⟨hserver, hsqWr, hsends⟩ := h
  cases l with
  | main inp =>
      obtain ⟨cb, call, hm, hcall⟩ := step_main hs
      obtain ⟨hserver', hsqWr', hpost⟩ := clientMain_base hm
      have hcb := Endpoint.call_cb hcall
      refine ⟨by rw [hcb]; exact hserver'.trans hserver, by rw [hcb]; exact hsqWr' hsqWr, ?_⟩
      cases call with
      | postSend wr sge =>
          have hsends' : SendsOnly { c.ep with cb := cb } := ⟨hsends.sends, hsends.reads⟩
          rw [← Option.some.inj hcall]
          exact hsends'.postSend (by rw [hpost wr sge rfl]; exact hsqWr) sge inp.ret
      | _ => exact hsends.call (by simp) hcall
  | move =>
      obtain ⟨ep, he, rfl⟩ := Option.map_eq_some_iff.mp hs
      obtain ⟨hsends', hcb⟩ := hsends.sendByte he
      exact ⟨by rw [hcb]; exact hserver, by rw [hcb]; exact hsqWr, hsends'⟩
  | ep l =>
      obtain ⟨-, ep, he, rfl⟩ := step_ep hs
      have hmain := Endpoint.step_mainFields clientHook_framed he
      refine ⟨?_, by rw [hmain]; exact hsqWr, ?_⟩
      · exact (congrArg MainFields.server hmain).trans hserver
      · cases l with
        | cm ev id ret =>
            simp only [Endpoint.step, Option.some.injEq] at he
            subst he
            exact ⟨hsends.sends, hsends.reads⟩
        | _ => exact (hsends.step (by simp) he).1

/-- **The client never hangs in a run exactly when each of its steps heeds
what its waits need.** -/
theorem hangFree_iff {host : Endian} {size : Nat} {p : List (ClientLabel × ClientConfig)}
    (hp : Path ClientConfig.step (init host size) p) :
    (∀ t ∈ states (init host size, Link.fresh)
        (withGhost Link.step (init host size) Link.fresh p), ¬ Hangs t) ↔
      ∀ t ∈ steps (init host size, Link.fresh)
        (withGhost Link.step (init host size) Link.fresh p), Heeds t.1 t.2.1 := by
  have hp' : Path (ghost ClientConfig.step Link.step) (init host size, Link.fresh) _ :=
    hp.ghost Link.fresh
  have hbase : ∀ t ∈ states (init host size, Link.fresh)
      (withGhost Link.step (init host size) Link.fresh p), Base t.1 := by
    refine hp'.invariant (Q := fun _ => True) (fun _ _ => trivial) ⟨rfl, rfl, ?_⟩ ?_
    · exact ⟨fun p hp => absurd hp List.not_mem_nil, fun wc hwc => absurd hwc List.not_mem_nil⟩
    · intro a l b _ ha hs
      exact ha.step (ghost_eq_some.mp hs).1
  refine hp'.forall_states_iff hbase ?_ ?_
  · rintro ⟨⟨bound, hbound, -⟩, -⟩
    cases hbound
  · intro a l b ha hs h
    exact hangs_step ha hs h

/-- From the set-up of the buffers to the advertisement. -/
def advertise : List ClientLabel :=
  setup ++ [.main .ok, .main .ok, .main .ok, .ep (.cm .established 1 0), .main .ok, .main .ok,
    .main .ok, .main .ok, .main .ok]

/-- The advertisement and its answer. -/
theorem hangFree_answered :
    ∃ p, Path ClientConfig.step (init .big 64) p ∧ (last (init .big 64) p).pc = .disconnect ∧
      ∀ t ∈ states (init .big 64, Link.fresh) (withGhost Link.step (init .big 64) Link.fresh p),
        ¬ Hangs t :=
  ⟨trace ClientConfig.step (init .big 64) (advertise ++
      [.ep (.land ⟨0, 0, 0⟩ 16 .success), .ep .cqEnter, .ep (.cqPoll 0), .ep (.cqPoll 0),
        .main .ok]),
    path_trace _ _, by decide, (hangFree_iff (path_trace _ _)).mpr (by decide)⟩

/-- `rdma_resolve_route` fails: the handler wakes the main thread up and
leaves `state` at `ADDR_RESOLVED`. -/
def noRoute : List ClientLabel := [.main .ok, .ep (.cm .addrResolved 1 (-12))]

theorem not_hangFree :
    ¬ ∀ host size p, Path ClientConfig.step (init host size) p →
      (∀ t ∈ steps (init host size, Link.fresh)
        (withGhost Link.step (init host size) Link.fresh p), Orderly t.1 t.2.1) →
      ∀ t ∈ states (init host size, Link.fresh)
        (withGhost Link.step (init host size) Link.fresh p), ¬ Hangs t := by
  intro hall
  have hrun := hall .big 64 _ (path_trace (init .big 64) noRoute) (by decide)
  exact absurd hrun (by decide)

/-- The device goes away while the address is resolved: nobody is woken up. -/
example : Hangs (last (init .big 64, Link.fresh) (withGhost Link.step (init .big 64) Link.fresh
    (trace ClientConfig.step (init .big 64) [.main .ok, .ep (.cm .deviceRemoval 1 0)]))) := by
  decide

/-- The peer disconnects before `megaVM_test_client` writes
`RDMA_READ_ADV` over the `ERROR`. -/
def overwrittenError : List ClientLabel :=
  setup ++ [.main .ok, .main .ok, .main .ok, .ep (.cm .established 1 0), .main .ok, .main .ok,
    .ep (.cm .disconnected 1 0), .main .ok, .main .ok, .main .ok]

example : Hangs (last (init .big 64, Link.fresh) (withGhost Link.step (init .big 64) Link.fresh
    (trace ClientConfig.step (init .big 64) overwrittenError))) := by
  decide

/-- The `ib_post_send` of the advertisement fails. -/
def refusedAdvert : List ClientLabel :=
  advertise.dropLast ++ [.main { MainIn.ok with ret := -12 }]

example : Hangs (last (init .big 64, Link.fresh) (withGhost Link.step (init .big 64) Link.fresh
    (trace ClientConfig.step (init .big 64) refusedAdvert))) := by
  decide

end ClientConfig

end MegaVM
