import MegaVM.Server.Serial
import MegaVM.Server.Transfer

/-!
# What the RDMA waits wait for

`megaVM_rdma_read` and `megaVM_rdma_write` post one operation and wait for
a value of `state` that its completion writes. The value is the only trace
the completion leaves. A message handled in between overwrites it, and a
post that failed leaves nothing to come.

`NoLostWakeup` says that a wait whose condition is false waits for its own
operation. A run keeps it exactly when each of its steps does, and the
steps that do are told by what is there before them (`noLostWakeup_iff_keepsWaking`).
-/

namespace MegaVM

open TestState Runs

/-! ## The operation a wait is for -/

/-- A call of `ib_post_send`. -/
def Obs.isAttempt : Obs → Bool
  | .posted _ _ | .refused _ => true
  | _ => false

namespace Endpoint

/-- The last call of `ib_post_send` has returned 0. -/
def accepted (e : Endpoint) : Bool :=
  match e.log.find? (·.isAttempt) with
  | some (.posted _ _) => true
  | _ => false

/-- The operation posted last is of kind `op` and has not been handled. -/
def Awaited (e : Endpoint) (op : WcOpcode) : Prop := e.accepted = true ∧ op ∈ e.unhandled

/-- A wait for `op` with the bound `bound` on `state` is over, or has its
operation to wait for. -/
def Wakes (e : Endpoint) (op : WcOpcode) (bound : TestState) : Prop :=
  bound ≤ e.cb.state ∨ e.Awaited op

/-- What a polled completion may not be while the wait for `op` has
nothing to wait for: a successful one that lowers `state`. -/
def Lowers (e : Endpoint) (op : WcOpcode) (ret : Int) (wc : Wc) : Prop :=
  (wc.opcode = .rdmaRead ∧ op = .rdmaWrite) ∨
    (wc.opcode = .recv ∧ wc.byteLen = sizeofRdmaInfo ∧ ret = 0 ∧
      (op = .rdmaRead → e.cb.state ≤ connected ∨ e.cb.state = rdmaWriteComplete))

instance (e : Endpoint) (op : WcOpcode) : Decidable (e.Awaited op) :=
  inferInstanceAs (Decidable (_ ∧ _))

instance (e : Endpoint) (op : WcOpcode) (ret : Int) (wc : Wc) : Decidable (e.Lowers op ret wc) :=
  inferInstanceAs (Decidable (_ ∨ _))

/-- The moves of the end that keep the wait for `op` waking. -/
def KeepsWaking (e : Endpoint) (op : WcOpcode) (bound : TestState) : EpLabel → Prop
  | .cm event _ _ =>
      event = .addrResolved ∨ event = .routeResolved ∨ event = .connectRequest → e.Awaited op
  | .cqPoll ret => ∀ wc ∈ e.cq.queue.head?,
      (wc.status = .wrFlushErr → wc.opcode = op → e.unhandled.count op = 1 →
        bound ≤ e.cb.state) ∧
      (wc.status = .success → e.Lowers op ret wc → e.Awaited op)
  | .cqEnter | .cqPollErr | .complete | .fail | .flush | .land .. | .flushRecv | .breakQp => True

instance (e : Endpoint) (op : WcOpcode) (bound : TestState) :
    (l : EpLabel) → Decidable (e.KeepsWaking op bound l)
  | .cm event _ _ => inferInstanceAs (Decidable (event = .addrResolved ∨
      event = .routeResolved ∨ event = .connectRequest → e.Awaited op))
  | .cqPoll ret => inferInstanceAs (Decidable (∀ wc ∈ e.cq.queue.head?,
      (wc.status = .wrFlushErr → wc.opcode = op → e.unhandled.count op = 1 →
        bound ≤ e.cb.state) ∧
      (wc.status = .success → e.Lowers op ret wc → e.Awaited op)))
  | .cqEnter | .cqPollErr | .complete | .fail | .flush | .land .. | .flushRecv | .breakQp =>
      .isTrue trivial

end Endpoint

namespace ServerConfig

/-- The operation a wait of the loop is for, and the bound it tests. -/
def waitsFor : ServerPc → Option (WcOpcode × TestState)
  | .readWait _ => some (.rdmaRead, rdmaReadComplete)
  | .writeWait _ => some (.rdmaWrite, rdmaWriteComplete)
  | _ => none

/-- The bound of the wait that follows a post of the loop. -/
def postBound : ServerPc → Option TestState
  | .readPost _ => some rdmaReadComplete
  | .writePost _ => some rdmaWriteComplete
  | _ => none

/-- A wait of the loop whose condition is false waits for the operation
its own call posted, and that has not been handled. -/
def NoLostWakeup (c : ServerConfig) : Prop :=
  ∀ w ∈ waitsFor c.pc, ¬ w.2 ≤ c.ep.cb.state → c.ep.Awaited w.1

/-- The steps that keep it: a post is accepted or its wait is over before
it begins; in the wait, nothing lowers `state` unless the operation is
still to come, and it is not flushed while the wait goes on. -/
def KeepsWaking (c : ServerConfig) : ServerLabel → Prop
  | .main inp =>
      ∀ bound ∈ postBound c.pc, inp.ret = 0 ∨ bound ≤ c.ep.cb.state
  | .ep l => ∀ w ∈ waitsFor c.pc, c.ep.KeepsWaking w.1 w.2 l
  | .move | .reuse _ => True

instance (c : ServerConfig) : (l : ServerLabel) → Decidable (c.KeepsWaking l)
  | .main inp =>
      inferInstanceAs (Decidable (∀ bound ∈ postBound c.pc, inp.ret = 0 ∨ bound ≤ c.ep.cb.state))
  | .ep l => inferInstanceAs (Decidable (∀ w ∈ waitsFor c.pc, c.ep.KeepsWaking w.1 w.2 l))
  | .move | .reuse _ => .isTrue trivial

instance (c : ServerConfig) : Decidable (NoLostWakeup c) :=
  inferInstanceAs (Decidable (∀ w ∈ waitsFor c.pc, ¬ w.2 ≤ c.ep.cb.state → c.ep.Awaited w.1))

end ServerConfig

/-! ## One move of the end -/

namespace Endpoint
variable {e e' : Endpoint} {l : EpLabel} {op : WcOpcode} {bound : TestState}

/-- No move of an end by itself is a post. -/
theorem step_accepted {hook : RecvHook} (h : e.step hook l = some e') :
    e'.accepted = e.accepted := by
  by_cases hcm : ∃ event id ret, l = .cm event id ret
  · obtain ⟨event, id, ret, rfl⟩ := hcm
    simp only [step, Option.some.injEq] at h
    subst h
    by_cases hreq : event = .connectRequest <;> simp [accepted, cm, hreq, Obs.isAttempt]
  push Not at hcm
  by_cases hp : ∃ ret, l = .cqPoll ret
  · obtain ⟨ret, rfl⟩ := hp
    obtain ⟨-, ⟨-, rfl⟩ | ⟨wc, rest, -, rfl⟩⟩ := step_poll h
    · rfl
    · simp [accepted, Obs.isAttempt]
  push Not at hp
  by_cases hpe : l = .cqPollErr
  · subst hpe
    obtain ⟨-, rfl⟩ := step_cqPollErr h
    rfl
  · rw [accepted, accepted, (step_cb h hcm hp hpe).2]

/-- Only a poll can take the awaited operation. -/
theorem step_awaited {hook : RecvHook} (h : e.step hook l = some e')
    (hp : ∀ ret, l ≠ .cqPoll ret) : e'.Awaited op ↔ e.Awaited op := by
  rw [Awaited, Awaited, step_accepted h, (step_unhandled h hp).1]

/-- The poll of another completion leaves the awaited operation alone. -/
theorem awaited_poll {wc : Wc} {rest : List Wc} (hq : e.cq.queue = wc :: rest)
    (hq' : e'.cq.queue = rest) (hsq : e'.sq = e.sq) (hacc : e'.accepted = e.accepted)
    (hop : wc.opcode ≠ op) : e'.Awaited op ↔ e.Awaited op := by
  have hu := poll_unhandled hq hq' hsq
  rw [Awaited, Awaited, hacc, hu]
  split
  · rw [List.mem_cons, or_iff_right hop.symm]
  · exact Iff.rfl

/-- What a poll must not do. -/
def TurnKeeps (e : Endpoint) (op : WcOpcode) (bound : TestState) (ret : Int) (wc : Wc) : Prop :=
  (wc.status = .wrFlushErr → wc.opcode = op → e.unhandled.count op = 1 → bound ≤ e.cb.state) ∧
    (wc.status = .success → e.Lowers op ret wc → e.Awaited op)

section
variable {wc : Wc} {rest : List Wc} {ret : Int}

/-- A turn that ends the wait. -/
theorem turn_raised (hst : wc.status ≠ .wrFlushErr) (hbound : bound ≤ e'.cb.state)
    (hlow : wc.status = .success → ¬ e.Lowers op ret wc) :
    e'.Wakes op bound ↔ e.TurnKeeps op bound ret wc :=
  iff_of_true (.inl hbound)
    ⟨fun hflush => absurd hflush hst, fun hsuc hlow' => absurd hlow' (hlow hsuc)⟩

/-- A turn that leaves `state` and the awaited operation alone. -/
theorem turn_idle (hw : e.Wakes op bound) (hop : wc.opcode ≠ op)
    (hother : e'.Awaited op ↔ e.Awaited op) (hstate : e'.cb.state = e.cb.state)
    (hlow : wc.status = .success → ¬ e.Lowers op ret wc) :
    e'.Wakes op bound ↔ e.TurnKeeps op bound ret wc := by
  rw [Wakes, hstate, hother]
  exact iff_of_true hw
    ⟨fun _ heq => absurd heq hop, fun hsuc hlow' => absurd hlow' (hlow hsuc)⟩

/-- A flush of the operation itself, perhaps the last one out. -/
theorem turn_flushed (hst : wc.status = .wrFlushErr) (hrdma : wc.opcode.isRdma = true)
    (hq : e.cq.queue = wc :: rest) (hq' : e'.cq.queue = rest) (hsq : e'.sq = e.sq)
    (hacc : e'.accepted = e.accepted) (hstate : e'.cb.state = e.cb.state)
    (hw : e.Wakes wc.opcode bound) :
    e'.Wakes wc.opcode bound ↔ e.TurnKeeps wc.opcode bound ret wc := by
  have hu := poll_unhandled hq hq' hsq
  rw [if_pos hrdma] at hu
  rw [Wakes, TurnKeeps, hstate, hst, hu, List.count_cons_self]
  constructor
  · rintro (hle | ⟨-, hmem⟩)
    · exact ⟨fun _ _ _ => hle, nofun⟩
    · have hpos := List.count_pos_iff.mpr hmem
      exact ⟨fun _ _ hone => absurd hone (by omega), nofun⟩
  · rintro ⟨hlast, -⟩
    -- another operation of the kind may still be out
    by_cases hmem : wc.opcode ∈ e'.unhandled
    · rcases hw with hle | ⟨hacc', -⟩
      · exact .inl hle
      · exact .inr ⟨hacc.trans hacc', hmem⟩
    · refine .inl (hlast rfl rfl ?_)
      rw [List.count_eq_zero_of_not_mem hmem]

/-- A message that is re-posted. -/
theorem turn_decoded (hb : ServerConfig.IsWait op bound) (hst : wc.status = .success)
    (hop : wc.opcode = .recv) (hlen : wc.byteLen = sizeofRdmaInfo) (hret : ret = 0)
    (hother : e'.Awaited op ↔ e.Awaited op)
    (hstate : e'.cb.state =
      if e.cb.state ≤ connected ∨ e.cb.state = rdmaWriteComplete then rdmaReadAdv
      else rdmaWriteAdv) :
    e'.Wakes op bound ↔ e.TurnKeeps op bound ret wc := by
  by_cases hlow : op = .rdmaRead → e.cb.state ≤ connected ∨ e.cb.state = rdmaWriteComplete
  · -- the message moves `state` below the bound
    have hbelow : ¬ bound ≤ e'.cb.state := by
      rw [hstate]
      rcases hb with ⟨rfl, rfl⟩ | ⟨rfl, rfl⟩
      · rw [if_pos (hlow rfl)]
        decide
      · split <;> decide
    -- so only the operation itself can still end the wait
    rw [Wakes, or_iff_right hbelow, hother, TurnKeeps, hst]
    exact ⟨fun hawait => ⟨nofun, fun _ _ => hawait⟩,
      fun hcond => hcond.2 rfl (.inr ⟨hop, hlen, hret, hlow⟩)⟩
  · -- `RDMA_WRITE_ADV` is above what the wait for the READ tests
    obtain ⟨rfl, hno⟩ := Classical.not_imp.mp hlow
    obtain ⟨-, rfl⟩ := hb.resolve_right (by simp)
    refine turn_raised (by rw [hst]; nofun) ?_ fun _ hlow' => ?_
    · rw [hstate, if_neg hno]
      decide
    · rcases hlow' with ⟨hread, -⟩ | ⟨-, -, -, himp⟩
      · rw [hop] at hread
        cases hread
      · exact absurd (himp rfl) hno

/-- A wait that is over, or has its operation, and what a poll leaves of
it. -/
theorem turn_wakes (hb : ServerConfig.IsWait op bound) (hsrv : e.cb.server ≠ 0)
    (hq : e.cq.queue = wc :: rest) (hq' : e'.cq.queue = rest) (hsq : e'.sq = e.sq)
    (hacc : e'.accepted = e.accepted) (hcb : e'.cb = (drainOne serverHook e.cb wc ret).cb)
    (hw : e.Wakes op bound) : e'.Wakes op bound ↔ e.TurnKeeps op bound ret wc := by
  have hother : wc.opcode ≠ op → (e'.Awaited op ↔ e.Awaited op) := awaited_poll hq hq' hsq hacc
  have hle : bound ≤ rdmaWriteComplete ∧ bound ≤ error ∧ op.isRdma = true := by
    rcases hb with ⟨rfl, rfl⟩ | ⟨rfl, rfl⟩ <;> decide
  have hrdma : ∀ o : WcOpcode, o.isRdma = false → o ≠ op := by
    rintro o ho rfl
    exact absurd (ho.symm.trans hle.2.2) Bool.false_ne_true
  have ht := drainOne_turn hsrv wc ret
  generalize drainOne serverHook e.cb wc ret = d at ht hcb
  cases ht with
  | flushed hst =>
      have hstate : e'.cb.state = e.cb.state := by rw [hcb]
      by_cases hop : wc.opcode = op
      · subst hop
        exact turn_flushed hst hle.2.2 hq hq' hsq hacc hstate hw
      · exact turn_idle hw hop (hother hop) hstate (by rw [hst]; simp)
  | failed hst =>
      refine turn_raised (by rw [hst]; simp) ?_ (by rw [hst]; simp)
      rw [hcb]
      exact hle.2.1
  | malformed hst hop hlen =>
      refine turn_raised (by rw [hst]; simp) ?_ fun _ hlow => ?_
      · rw [hcb]
        exact hle.2.1
      · simp [Lowers, hop, hlen] at hlow
  | notReposted hst hop hlen hret =>
      refine turn_raised (by rw [hst]; simp) ?_ fun _ hlow => ?_
      · rw [hcb]
        exact hle.2.1
      · simp [Lowers, hop, hret] at hlow
  | unexpected hst hop =>
      refine turn_raised (by rw [hst]; simp) ?_ fun _ hlow => ?_
      · rw [hcb]
        exact hle.2.1
      · simp [Lowers, hop] at hlow
  | sent hst hop =>
      have hne : wc.opcode ≠ op := hop ▸ hrdma _ rfl
      refine turn_idle hw hne (hother hne) (by rw [hcb]) fun _ hlow => ?_
      simp [Lowers, hop] at hlow
  | written hst hop =>
      refine turn_raised (by rw [hst]; simp) ?_ fun _ hlow => ?_
      · rw [hcb]
        exact hle.1
      · simp [Lowers, hop] at hlow
  | read hst hop =>
      have hstate : e'.cb.state = rdmaReadComplete := by rw [hcb]
      rcases hb with ⟨rfl, rfl⟩ | ⟨rfl, rfl⟩
      · refine turn_raised (by rw [hst]; simp) (by rw [hstate]; exact Nat.le_refl _) ?_
        intro _ hlow
        simp [Lowers, hop] at hlow
      · -- a late READ, in the wait for the WRITE
        rw [Wakes, hstate, or_iff_right (by decide), hother (by rw [hop]; simp), TurnKeeps, hst]
        exact ⟨fun hawait => ⟨(by simp), fun _ _ => hawait⟩,
          fun hcond => hcond.2 rfl (.inl ⟨hop, rfl⟩)⟩
  | decoded hst hop hlen hret =>
      refine turn_decoded hb hst hop hlen hret (hother (hop ▸ hrdma _ rfl)) ?_
      rw [hcb]
      rfl

end

/-- **One move of the end during a wait.** -/
theorem step_wakes (hb : ServerConfig.IsWait op bound) (hsrv : e.cb.server ≠ 0)
    (h : e.step serverHook l = some e') (hw : e.Wakes op bound) :
    e'.Wakes op bound ↔ e.KeepsWaking op bound l := by
  have hle : bound ≤ error ∧ ¬ bound ≤ routeResolved := by
    rcases hb with ⟨-, rfl⟩ | ⟨-, rfl⟩ <;> decide
  -- a move that neither polls nor writes `state`
  have hquiet : (∀ ret, l ≠ .cqPoll ret) → e'.cb.state = e.cb.state → e'.Wakes op bound := by
    intro hp hst
    rw [Wakes, hst, step_awaited h hp]
    exact hw
  cases l with
  | cm event id ret =>
      have hawait : e'.Awaited op ↔ e.Awaited op := step_awaited h (by simp)
      simp only [step, Option.some.injEq] at h
      subst h
      rw [Wakes, hawait]
      -- three events move `state` to the beginning
      have hback : ∀ s : TestState, s ≤ routeResolved → (bound ≤ s ∨ e.Awaited op ↔ e.Awaited op) :=
        fun s hs => or_iff_right fun hbs => hle.2 (Nat.le_trans hbs hs)
      cases event with
      | addrResolved =>
          rw [show (e.cm .addrResolved id ret).cb.state = addrResolved from rfl,
            hback _ (by decide)]
          exact ⟨fun ha _ => ha, fun hk => hk (.inl rfl)⟩
      | routeResolved =>
          rw [show (e.cm .routeResolved id ret).cb.state = routeResolved from rfl,
            hback _ (by decide)]
          exact ⟨fun ha _ => ha, fun hk => hk (.inr (.inl rfl))⟩
      | connectRequest =>
          rw [show (e.cm .connectRequest id ret).cb.state = connectRequest from rfl,
            hback _ (by decide)]
          exact ⟨fun ha _ => ha, fun hk => hk (.inr (.inr rfl))⟩
      | established =>
          have hst : (e.cm .established id ret).cb.state = e.cb.state := by
            simp only [cm, cmaEventHandler, if_neg hsrv]
          rw [hst]
          exact iff_of_true hw (by simp [KeepsWaking])
      | deviceRemoval | other => exact iff_of_true hw (by simp [KeepsWaking])
      | _ => exact iff_of_true (.inl hle.1) (by simp [KeepsWaking])
  | cqPoll ret =>
      have hacc := step_accepted h
      obtain ⟨-, ⟨hq, rfl⟩ | ⟨wc, rest, hq, rfl⟩⟩ := step_poll h
      · refine iff_of_true hw ?_
        intro wc hwc
        rw [hq] at hwc
        cases hwc
      · refine Iff.trans (turn_wakes hb hsrv hq rfl rfl hacc rfl hw) ?_
        rw [KeepsWaking, TurnKeeps, hq]
        simp only [List.head?_cons, Option.mem_some_iff, forall_eq']
  | cqPollErr =>
      obtain ⟨-, rfl⟩ := step_cqPollErr h
      exact iff_of_true (.inl hle.1) trivial
  | _ =>
      refine iff_of_true (hquiet (by simp) ?_) trivial
      obtain ⟨⟨buf, hcb⟩, -⟩ := step_cb h (by simp) (by simp) (by simp)
      rw [hcb]

end Endpoint

/-! ## One step of the server -/

namespace ServerConfig
variable {N : Nat} {c c' : ServerConfig} {l : ServerLabel} {w : WcOpcode × TestState}

theorem waitsFor_isWait {pc : ServerPc} (h : w ∈ waitsFor pc) : IsWait w.1 w.2 := by
  cases pc with
  | readWait i =>
      obtain rfl := Option.some.inj h
      exact .inl ⟨rfl, rfl⟩
  | writeWait i =>
      obtain rfl := Option.some.inj h
      exact .inr ⟨rfl, rfl⟩
  | _ => cases h

theorem noLostWakeup_iff : NoLostWakeup c ↔ ∀ w ∈ waitsFor c.pc, c.ep.Wakes w.1 w.2 :=
  forall₂_congr fun _ _ => Decidable.or_iff_not_imp_left.symm

/-- A post that is accepted leaves its operation to wait for, a refused
one nothing. -/
theorem postSend_awaited {e : Endpoint} {wr : SendWr} {sge : Sge} {ret : Int} {op : WcOpcode}
    (hwr : wr.opcode.wc = op) (hop : op.isRdma = true) :
    (e.postSend wr sge ret).Awaited op ↔ ret = 0 := by
  by_cases hret : ret = 0
  · refine iff_of_true ⟨?_, ?_⟩ hret
    · simp [Endpoint.accepted, Endpoint.postSend, hret, Obs.isAttempt]
    · simp [Endpoint.unhandled, Endpoint.postSend, hret, hwr, hop]
  · refine iff_of_false (fun h => ?_) hret
    have hacc := h.1
    simp [Endpoint.accepted, Endpoint.postSend, hret, Obs.isAttempt] at hacc

/-- The points a wait is entered from. -/
theorem serverMain_waits {len : Option Nat} {inp : MainIn} {cb cb' : IbContext}
    {pc pc' : ServerPc} {call : Call} (hm : serverMain N len inp cb pc = some (cb', pc', call))
    (hno : RdmaPost pc = false) : waitsFor pc' = none := by
  cases serverMain_move hm with
  | readPost | writePost => cases hno
  | _ => rfl

theorem serverMain_opcodeAt {len : Option Nat} {inp : MainIn} {cb cb' : IbContext}
    {pc pc' : ServerPc} {call : Call} (hm : serverMain N len inp cb pc = some (cb', pc', call)) :
    OpcodeAt cb'.mainFields pc' := by
  cases serverMain_move hm with
  | readSet | writeSet => rfl
  | _ => trivial

/-- The opcode is set in front of its post. -/
theorem step_opcodeAt (hs : c.step N l = some c') (h : OpcodeAt c.ep.cb.mainFields c.pc) :
    OpcodeAt c'.ep.cb.mainFields c'.pc := by
  cases l with
  | main inp =>
      obtain ⟨cb, call, hm, hcall, -, -⟩ := step_main_call hs
      rw [Endpoint.call_cb hcall]
      exact serverMain_opcodeAt hm
  | move =>
      obtain ⟨p, rest, -, -, -, hep, hpc, -⟩ := step_move hs
      rw [hep, hpc]
      exact h
  | ep l =>
      obtain ⟨-, ep, he, rfl⟩ := step_ep hs
      rw [Endpoint.step_mainFields serverHook_framed he]
      exact h
  | reuse mem =>
      obtain ⟨-, rfl⟩ := step_reuse hs
      exact h

/-- **One step of the server.** -/
theorem noLostWakeup_step (hsrv : c.ep.cb.server ≠ 0) (hop : OpcodeAt c.ep.cb.mainFields c.pc)
    (hs : c.step N l = some c') (h : NoLostWakeup c) : NoLostWakeup c' ↔ c.KeepsWaking l := by
  rw [noLostWakeup_iff] at h ⊢
  cases l with
  | main inp =>
      -- a post is followed by its wait
      have hpost : ∀ {e : Endpoint} {op bound}, c.ep.cb.rdmaSqWr.opcode.wc = op → op.isRdma = true →
          e = c.ep.postSend c.ep.cb.rdmaSqWr c.ep.cb.rdmaSgl inp.ret →
          (e.Wakes op bound ↔ inp.ret = 0 ∨ bound ≤ c.ep.cb.state) := by
        rintro e op bound hwr hrdma rfl
        rw [Endpoint.Wakes, postSend_awaited hwr hrdma, (Endpoint.postSend_sq _ _ _ _).1, or_comm]
      by_cases hrdma : RdmaPost c.pc = true
      · cases hpc : c.pc with
        | readPost i =>
            have hwr : c.ep.cb.rdmaSqWr.opcode = .rdmaRead := by rwa [hpc] at hop
            rw [main_readPost hpc] at hs
            obtain rfl := Option.some.inj hs
            simp only [waitsFor, Option.mem_some_iff, forall_eq', KeepsWaking, hpc, postBound]
            exact hpost (by rw [hwr]; rfl) rfl rfl
        | writePost i =>
            have hwr : c.ep.cb.rdmaSqWr.opcode = .rdmaWrite := by rwa [hpc] at hop
            rw [main_writePost hpc] at hs
            obtain rfl := Option.some.inj hs
            simp only [waitsFor, Option.mem_some_iff, forall_eq', KeepsWaking, hpc, postBound]
            exact hpost (by rw [hwr]; rfl) rfl rfl
        | _ =>
            rw [hpc] at hrdma
            cases hrdma
      · obtain ⟨cb, call, hm, -, -, -⟩ := step_main_call hs
        rw [serverMain_waits hm ((Bool.not_eq_true _).mp hrdma)]
        refine iff_of_true nofun ?_
        intro bound hbound
        cases hpc : c.pc with
        | readPost i | writePost i =>
            rw [hpc] at hrdma
            exact absurd rfl hrdma
        | _ =>
            rw [hpc] at hbound
            cases hbound
  | move =>
      obtain ⟨p, rest, hsq, -, -, hep, hpc, -⟩ := step_move hs
      refine iff_of_true (fun w hw => ?_) trivial
      rw [hpc] at hw
      have hu : c'.ep.unhandled = c.ep.unhandled := by
        simp [hep, Endpoint.unhandled, hsq]
      rw [Endpoint.Wakes, Endpoint.Awaited, hu, hep]
      exact h w hw
  | ep l =>
      obtain ⟨-, ep, he, rfl⟩ := step_ep hs
      exact forall₂_congr fun w hw =>
        Endpoint.step_wakes (waitsFor_isWait hw) hsrv he (h w hw)
  | reuse mem =>
      obtain ⟨-, rfl⟩ := step_reuse hs
      exact iff_of_true h trivial

/-! ## Whole runs -/

/-- **A run loses no wake-up exactly when each of its steps keeps the
waits waking.** -/
theorem noLostWakeup_iff_keepsWaking {N : Nat} {host : Endian} {size : Nat} {mem : List Byte}
    {remote : BitVec 64 → Byte} {p : List (ServerLabel × ServerConfig)}
    (hp : Path (step N) (init host size mem remote) p) :
    (∀ c ∈ states (init host size mem remote) p, NoLostWakeup c) ↔
      ∀ t ∈ steps (init host size mem remote) p, t.1.KeepsWaking t.2.1 := by
  have hloop : ∀ c ∈ states (init host size mem remote) p,
      c.ep.cb.server ≠ 0 ∧ OpcodeAt c.ep.cb.mainFields c.pc := by
    refine hp.invariant (Q := fun _ => True) (fun _ _ => trivial)
      ⟨show (1 : Int) ≠ 0 by decide, trivial⟩ ?_
    intro a l b _ ha hs
    rw [step_server hs]
    exact ⟨ha.1, step_opcodeAt hs ha.2⟩
  refine hp.forall_states_iff hloop nofun ?_
  intro a l b ha hs h
  exact noLostWakeup_step ha.1 ha.2 hs h

/-- Two prompt iterations, with an advertisement for each. -/
theorem noLostWakeup_startup :
    ∃ p, Path (step 2) boot p ∧ (last boot p).pc = .goAhead ∧ ∀ c ∈ states boot p, NoLostWakeup c :=
  ⟨trace (step 2) boot (startup ⟨0, 0, 1⟩ ++ twoTurns.tail), path_trace _ _, by decide,
    (noLostWakeup_iff_keepsWaking (path_trace _ _)).mpr (by decide)⟩

/-- The peer's second message is handled after the completion of the
WRITE and before the main thread has looked: `RDMA_WRITE_COMPLETE` is
overwritten by `RDMA_READ_ADV`. -/
def overwrittenRun : List ServerLabel :=
  startup ⟨0, 0, 1⟩ ++ promptOp ++
    [.main .ok, .main .ok, .move, .ep .complete, .ep (.land ⟨0, 0, 1⟩ 16 .success), .ep .cqEnter,
      .ep (.cqPoll 0), .ep (.cqPoll 0)]

theorem not_noLostWakeup :
    ¬ ∀ p, Path (step 10) boot p → (∀ t ∈ steps boot p, Healthy t.1 t.2.1) →
      ∀ c ∈ states boot p, NoLostWakeup c := by
  intro hall
  have hrun := hall _ (path_trace boot overwrittenRun) (by decide)
  exact absurd hrun (by decide)

end ServerConfig

end MegaVM
