import MegaVM.Server.Machine

/-!
# Serialisation of the RDMA operations

`megaVM_rdma_read` and `megaVM_rdma_write` each post one operation and
then wait for `state` to reach the value its completion writes. The
value is never reset between iterations, so the wait of a later
iteration can be over before its operation is: from the second iteration
on `RDMA_WRITE_COMPLETE` is already there.

`Serialised` is the intended discipline. It fails for the loop of the
source (`not_serialised_ten`); it holds in every run that is `Paced`:
each operation is posted while `state` is below the value its wait tests,
and nothing but its completion moves `state` there while it is out.
-/

namespace MegaVM

open TestState

namespace ServerConfig

/-- Every `ib_post_send` succeeds and no signal ends a wait. -/
def Smooth (_ : ServerConfig) : ServerLabel → Prop
  | .main inp => inp.ret = 0 ∧ inp.signal = false
  | .move | .ep _ | .reuse _ => True

instance (c : ServerConfig) : (l : ServerLabel) → Decidable (Smooth c l)
  | .main inp => inferInstanceAs (Decidable (inp.ret = 0 ∧ inp.signal = false))
  | .move | .ep _ | .reuse _ => .isTrue trivial

/-- A move of the endpoint in which no call fails, no completion fails and
the connection stays up. -/
def HealthyEp : EpLabel → Prop
  | .cm event _ ret => event.isError = false ∧ ret = 0
  | .cqPoll ret => ret = 0
  | .land _ byteLen status => byteLen = sizeofRdmaInfo ∧ status = .success
  | .cqPollErr | .fail | .breakQp => False
  | .cqEnter | .complete | .flush | .flushRecv => True

instance : (l : EpLabel) → Decidable (HealthyEp l)
  | .cm event _ ret => inferInstanceAs (Decidable (event.isError = false ∧ ret = 0))
  | .cqPoll ret => inferInstanceAs (Decidable (ret = 0))
  | .land _ byteLen status =>
      inferInstanceAs (Decidable (byteLen = sizeofRdmaInfo ∧ status = .success))
  | .cqPollErr | .fail | .breakQp => .isFalse id
  | .cqEnter | .complete | .flush | .flushRecv => .isTrue trivial

/-- Nothing fails and no signal arrives; what is left to the environment
is the timing. -/
def Healthy (c : ServerConfig) (l : ServerLabel) : Prop :=
  Smooth c l ∧ match l with
    | .ep l => HealthyEp l
    | .main _ | .move | .reuse _ => True

instance (c : ServerConfig) (l : ServerLabel) : Decidable (Healthy c l) :=
  match l with
  | .ep l => inferInstanceAs (Decidable (_ ∧ HealthyEp l))
  | .main inp => inferInstanceAs (Decidable (Smooth c (.main inp) ∧ True))
  | .move | .reuse _ => .isTrue ⟨trivial, trivial⟩

/-- The server enters `start_MegaVM_server`: `setup_wr` has run, and no
RDMA operation has been posted or handled. -/
structure AtLoop (c : ServerConfig) : Prop where
  pc : c.pc = .startWait
  sqWr : c.ep.cb.sqWr.opcode = .send
  quiet : c.ep.unhandled = []
  fresh : ∀ op, WcOpcode.isRdma op = true → c.ep.posted op = 0 ∧ c.ep.handled op = 0

/-- When the `k`-th WRITE is posted the `k`-th READ has been handled, when
the `k+1`-st READ is posted the `k`-th WRITE has, and at most one of them
is ever out. -/
structure Serialised (c : ServerConfig) : Prop where
  read_handled : c.ep.posted .rdmaWrite ≤ c.ep.handled .rdmaRead
  write_handled : c.ep.posted .rdmaRead ≤ c.ep.handled .rdmaWrite + 1
  one_out : c.ep.unhandled.length ≤ 1

/-- A completion that does not fail, and that is not a second
advertisement handled while a READ is out. -/
def CalmWc (e : Endpoint) (ret : Int) (wc : Wc) : Prop :=
  wc.status ≠ .failure ∧
    (wc.status = .success → wc.opcode ≠ .other ∧
      (wc.opcode = .recv → wc.byteLen = sizeofRdmaInfo ∧ ret = 0 ∧
        (WcOpcode.rdmaRead ∈ e.unhandled → e.cb.state ≠ rdmaReadAdv)))

instance (e : Endpoint) (ret : Int) (wc : Wc) : Decidable (CalmWc e ret wc) :=
  inferInstanceAs (Decidable (_ ∧ (_ → _ ∧ (_ → _ ∧ _ ∧ (_ → _)))))

/-- A move of the endpoint that raises `state` to no value a wait tests,
unless by the completion of the operation waited for. -/
def Calm (e : Endpoint) : EpLabel → Prop
  | .cm event _ _ => event.isError = false
  | .cqPollErr => False
  | .cqPoll ret => ∀ wc ∈ e.cq.queue.take 1, CalmWc e ret wc
  | _ => True

instance (e : Endpoint) : (l : EpLabel) → Decidable (Calm e l)
  | .cm event _ _ => inferInstanceAs (Decidable (event.isError = false))
  | .cqPollErr => .isFalse id
  | .cqPoll ret => inferInstanceAs (Decidable (∀ wc ∈ e.cq.queue.take 1, CalmWc e ret wc))
  | .cqEnter | .complete | .fail | .flush | .land .. | .flushRecv | .breakQp =>
      .isTrue trivial

/-- An operation is posted only while `state` is below the value its wait
tests. -/
def PacedPost (state : TestState) : ServerPc → Prop
  | .readPost _ => state < rdmaReadComplete
  | .writePost _ => state < rdmaWriteComplete
  | _ => True

instance (state : TestState) (pc : ServerPc) : Decidable (PacedPost state pc) :=
  match pc with
  | .readPost _ => inferInstanceAs (Decidable (state < rdmaReadComplete))
  | .writePost _ => inferInstanceAs (Decidable (state < rdmaWriteComplete))
  | .bindAddr | .listen | .bindWait | .bindTest | .setupQp | .setupBuffers | .postRecv
  | .accept | .acceptWait | .acceptTest | .startWait | .readSet _ | .readWait _
  | .writeSet _ | .writeWait _ | .goAhead | .disconnect | .freeBuffers | .freeQp
  | .destroyChild | .destroyListener | .freed | .oops => .isTrue trivial

/-- The steps under which the waits really wait. -/
def Paced (c : ServerConfig) : ServerLabel → Prop
  | .main _ => PacedPost c.ep.cb.state c.pc
  | .move | .reuse _ => True
  | .ep l => c.ep.unhandled ≠ [] → Calm c.ep l

instance (c : ServerConfig) : (l : ServerLabel) → Decidable (Paced c l)
  | .main _ => inferInstanceAs (Decidable (PacedPost _ _))
  | .move | .reuse _ => .isTrue trivial
  | .ep l => inferInstanceAs (Decidable (c.ep.unhandled ≠ [] → Calm c.ep l))

/-! ## The invariant -/

/-- The operation the main thread is waiting for, if it is not handled
yet, and the bound its wait puts on `state`. -/
def Waiting (e : Endpoint) (op : WcOpcode) (bound : TestState) : Prop :=
  e.unhandled = [] ∨ (e.unhandled = [op] ∧ e.cb.state < bound)

/-- What is out at each point of the main thread. -/
def OutAt (e : Endpoint) : ServerPc → Prop
  | .readWait _ => Waiting e .rdmaRead rdmaReadComplete
  | .writeWait _ => Waiting e .rdmaWrite rdmaWriteComplete
  | _ => e.unhandled = []

/-- READs posted, against WRITEs posted. -/
def OrderAt (e : Endpoint) : ServerPc → Prop
  | .readWait _ | .writeSet _ | .writePost _ | .oops =>
      e.posted .rdmaRead = e.posted .rdmaWrite + 1
  | _ => e.posted .rdmaRead = e.posted .rdmaWrite

/-- The opcode in the work request about to be posted. -/
def OpcodeAt (cb : MainFields) : ServerPc → Prop
  | .readPost _ => cb.rdmaSqWr.opcode = .rdmaRead
  | .writePost _ => cb.rdmaSqWr.opcode = .rdmaWrite
  | _ => True

structure SerialInv (c : ServerConfig) : Prop where
  sqWr : c.ep.cb.mainFields.sqWr.opcode = .send
  opcode : OpcodeAt c.ep.cb.mainFields c.pc
  out : OutAt c.ep c.pc
  order : OrderAt c.ep c.pc
  reads : c.ep.posted .rdmaRead = c.ep.handled .rdmaRead + c.ep.unhandled.count .rdmaRead
  writes : c.ep.posted .rdmaWrite = c.ep.handled .rdmaWrite + c.ep.unhandled.count .rdmaWrite

theorem SerialInv.serialised {c : ServerConfig} (h : SerialInv c) : Serialised c := by
  obtain ⟨-, -, hout, hord, hr, hw⟩ := h
  -- at most the operation the main thread waits for is out
  have key : c.ep.unhandled = [] ∨ (∃ i, c.pc = .readWait i ∧ c.ep.unhandled = [.rdmaRead]) ∨
      (∃ i, c.pc = .writeWait i ∧ c.ep.unhandled = [.rdmaWrite]) := by
    cases hpc : c.pc with
    | readWait i =>
      rw [hpc] at hout
      rcases hout with h0 | h0
      · exact .inl h0
      · exact .inr (.inl ⟨i, rfl, h0.1⟩)
    | writeWait i =>
      rw [hpc] at hout
      rcases hout with h0 | h0
      · exact .inl h0
      · exact .inr (.inr ⟨i, rfl, h0.1⟩)
    | _ => rw [hpc] at hout; exact .inl hout
  have hle : c.ep.posted .rdmaWrite ≤ c.ep.posted .rdmaRead ∧
      c.ep.posted .rdmaRead ≤ c.ep.posted .rdmaWrite + 1 := by
    cases hpc : c.pc <;> simp only [hpc, OrderAt] at hord <;> omega
  rcases key with h0 | ⟨i, hpc, h0⟩ | ⟨i, hpc, h0⟩ <;> rw [h0] at hr hw <;> simp at hr hw
  · exact ⟨by omega, by omega, by simp [h0]⟩
  · simp only [hpc, OrderAt] at hord
    exact ⟨by omega, by omega, by simp [h0]⟩
  · simp only [hpc, OrderAt] at hord
    exact ⟨by omega, by omega, by simp [h0]⟩

theorem AtLoop.serialInv {c : ServerConfig} (h : AtLoop c) : SerialInv c where
  sqWr := h.sqWr
  opcode := by rw [h.pc]; trivial
  out := by rw [h.pc]; exact h.quiet
  order := by
    rw [h.pc]
    simp only [OrderAt, (h.fresh .rdmaRead rfl).1, (h.fresh .rdmaWrite rfl).1]
  reads := by simp [h.fresh .rdmaRead rfl, h.quiet]
  writes := by simp [h.fresh .rdmaWrite rfl, h.quiet]

/-! ## Preservation -/

/-- The two waits: an operation and the value its completion writes. -/
def IsWait (op : WcOpcode) (bound : TestState) : Prop :=
  (op = .rdmaRead ∧ bound = rdmaReadComplete) ∨ (op = .rdmaWrite ∧ bound = rdmaWriteComplete)

/-- A calm completion of something else keeps `state` below the bound. -/
theorem drainOne_calm {e : Endpoint} {wc : Wc} {ret : Int} {op : WcOpcode}
    {bound : TestState} (hb : IsWait op bound) (hout : e.unhandled = [op])
    (hst : e.cb.state < bound) (hc : CalmWc e ret wc) (hop : wc.opcode.isRdma = false) :
    (drainOne serverHook e.cb wc ret).cb.state < bound := by
  obtain ⟨hfail, hsucc⟩ := hc
  unfold drainOne
  cases hs : wc.status with
  | wrFlushErr => exact hst
  | failure => exact absurd hs hfail
  | success =>
    obtain ⟨hother, hrecv⟩ := hsucc hs
    cases ho : wc.opcode with
    | send => exact hst
    | rdmaWrite | rdmaRead => simp [ho, WcOpcode.isRdma] at hop
    | other => exact absurd ho hother
    | recv =>
      obtain ⟨hlen, rfl, hadv⟩ := hrecv ho
      dsimp only
      -- a message: `server_recv` decides what becomes of `state`
      by_cases hsrv : e.cb.server = 0
      · simp only [serverHook, hsrv, ne_eq, not_true_eq_false, if_false]
        exact hst
      · simp only [serverHook, hsrv, ne_eq, not_false_eq_true, if_true, serverRecv_ret, hlen,
          not_true_eq_false, if_false, serverRecv_state]
        -- a READ is out below RDMA_READ_ADV, so the advert cannot become a WRITE_ADV
        rcases hb with ⟨rfl, rfl⟩ | ⟨rfl, rfl⟩
        · have hne := hadv (by simp [hout])
          cases hcs : e.cb.state <;> simp_all
        · split <;> simp

theorem Waiting.step {e e' : Endpoint} {l : EpLabel} {op : WcOpcode} {bound : TestState}
    (hb : IsWait op bound) (hw : Waiting e op bound) (h : e.step serverHook l = some e')
    (hc : e.unhandled ≠ [] → Calm e l) : Waiting e' op bound := by
  rcases hw with hnil | ⟨hout, hst⟩
  · exact .inl (Endpoint.step_unhandled_nil h hnil)
  -- the operation is out, so the move is a calm one
  have hcalm : Calm e l := hc (by simp [hout])
  by_cases hp : ∃ ret, l = .cqPoll ret
  · obtain ⟨ret, rfl⟩ := hp
    obtain ⟨-, ⟨-, rfl⟩ | ⟨wc, rest, hq, he'⟩⟩ := Endpoint.step_poll h
    · exact .inr ⟨hout, hst⟩
    · have hu : e.unhandled = if wc.opcode.isRdma then wc.opcode :: e'.unhandled
          else e'.unhandled := Endpoint.poll_unhandled hq (by rw [he']) (by rw [he'])
      rw [hout] at hu
      by_cases hr : wc.opcode.isRdma = true
      · rw [if_pos hr] at hu
        -- its completion is the one that is polled
        exact .inl (List.cons.inj hu).2.symm
      · rw [if_neg hr] at hu
        refine .inr ⟨hu.symm, ?_⟩
        rw [he']
        exact drainOne_calm hb hout hst (hcalm wc (by simp [hq])) (by simpa using hr)
  · push Not at hp
    have hu := (Endpoint.step_unhandled h hp).1
    refine .inr ⟨hu.trans hout, ?_⟩
    by_cases hcm : ∃ ev id ret, l = .cm ev id ret
    · obtain ⟨ev, id, ret, rfl⟩ := hcm
      simp only [Endpoint.step, Option.some.injEq] at h
      subst h
      rcases cmaEventHandler_calm e.cb hcalm id ret with hs | hs
      · show (cmaEventHandler e.cb ev id ret).1.state < bound
        rw [hs]; exact hst
      · show (cmaEventHandler e.cb ev id ret).1.state < bound
        rcases hb with ⟨-, rfl⟩ | ⟨-, rfl⟩ <;> simp at hs ⊢ <;> omega
    · by_cases he : l = .cqPollErr
      · subst he; exact hcalm.elim
      · push Not at hcm
        obtain ⟨⟨buf, hbuf⟩, -⟩ := Endpoint.step_cb h hcm hp he
        rw [hbuf]; exact hst

/-- A paced move of the endpoint keeps the invariant. -/
theorem SerialInv.ep {c : ServerConfig} {ep : Endpoint} {l : EpLabel} (h : SerialInv c)
    (hs : c.ep.step serverHook l = some ep) (hc : c.ep.unhandled ≠ [] → Calm c.ep l) :
    SerialInv { c with ep := ep } := by
  have hmf := Endpoint.step_mainFields serverHook_framed hs
  have hr := Endpoint.step_counts hs .rdmaRead rfl
  have hw := Endpoint.step_counts hs .rdmaWrite rfl
  obtain ⟨hsq, hop, hout, hord, hrd, hwr⟩ := h
  refine ⟨by rw [hmf]; exact hsq, by rw [hmf]; exact hop, ?_, ?_, ?_, ?_⟩
  · show OutAt ep c.pc
    cases hpc : c.pc with
    | readWait i => rw [hpc] at hout; exact Waiting.step (.inl ⟨rfl, rfl⟩) hout hs hc
    | writeWait i => rw [hpc] at hout; exact Waiting.step (.inr ⟨rfl, rfl⟩) hout hs hc
    | _ => rw [hpc] at hout; exact Endpoint.step_unhandled_nil hs hout
  · show OrderAt ep c.pc
    cases hpc : c.pc <;> simp only [hpc, OrderAt] at hord ⊢ <;> omega
  · show ep.posted .rdmaRead = ep.handled .rdmaRead + ep.unhandled.count .rdmaRead
    omega
  · show ep.posted .rdmaWrite = ep.handled .rdmaWrite + ep.unhandled.count .rdmaWrite
    omega

theorem OutAt.of_nil {e : Endpoint} (h : e.unhandled = []) (pc : ServerPc) : OutAt e pc := by
  cases pc <;> first | exact h | exact .inl h

/-- A wait that is over leaves nothing out. -/
theorem Waiting.done {e : Endpoint} {op : WcOpcode} {bound : TestState}
    (h : Waiting e op bound) (hst : bound ≤ e.cb.state) : e.unhandled = [] := by
  rcases h with h | ⟨-, h⟩
  · exact h
  · simp at h hst; omega

/-- A step that posts nothing and leaves nothing out. -/
theorem SerialInv.idle {c c' : ServerConfig} (h : SerialInv c)
    (hnil : c.ep.unhandled = []) (hnil' : c'.ep.unhandled = [])
    (hpost : ∀ op, WcOpcode.isRdma op = true → c'.ep.posted op = c.ep.posted op)
    (hhand : ∀ op, c'.ep.handled op = c.ep.handled op)
    (hsq : c'.ep.cb.mainFields.sqWr.opcode = .send)
    (hop : OpcodeAt c'.ep.cb.mainFields c'.pc)
    (hord : OrderAt c.ep c.pc → OrderAt c.ep c'.pc) : SerialInv c' := by
  have hr := h.reads
  have hw := h.writes
  have ho := hord h.order
  rw [hnil] at hr hw
  refine ⟨hsq, hop, .of_nil hnil' _, ?_, ?_, ?_⟩
  · cases hpc : c'.pc <;> rw [hpc] at ho <;> simp only [OrderAt] at ho ⊢ <;>
      rw [hpost _ rfl, hpost _ rfl] <;> exact ho
  · rw [hpost _ rfl, hhand, hnil']; exact hr
  · rw [hpost _ rfl, hhand, hnil']; exact hw

/-- `ib_post_send` of an RDMA operation puts it on the list. -/
theorem postSend_unhandled {e : Endpoint} {wr : SendWr} {sge : Sge} (hnil : e.unhandled = [])
    (hop : wr.opcode.wc.isRdma = true) :
    (e.postSend wr sge 0).unhandled = [wr.opcode.wc] := by
  simp only [Endpoint.unhandled, Endpoint.postSend, List.filter_append] at hnil ⊢
  obtain ⟨h1, h2⟩ := List.append_eq_nil_iff.mp hnil
  simp [h1, h2, hop]

theorem postSend_send {e : Endpoint} {wr : SendWr} (sge : Sge) (ret : Int)
    (hnil : e.unhandled = []) (hop : wr.opcode = .send) :
    (e.postSend wr sge ret).unhandled = [] ∧
      (∀ op, WcOpcode.isRdma op = true → (e.postSend wr sge ret).posted op = e.posted op) ∧
      ∀ op, (e.postSend wr sge ret).handled op = e.handled op := by
  by_cases hr : ret = 0
  · simp only [Endpoint.unhandled, Endpoint.postSend, Endpoint.posted, Endpoint.handled, hr,
      if_true] at hnil ⊢
    refine ⟨?_, fun op ho => ?_, fun op => by simp [Obs.isHandled]⟩
    · simp only [List.map_append, List.filter_append] at hnil ⊢
      simp_all [WrOpcode.wc, WcOpcode.isRdma]
    · cases op <;> simp_all [Obs.isPosted, WrOpcode.wc, WcOpcode.isRdma]
  · simp [Endpoint.unhandled, Endpoint.postSend, Endpoint.posted, Endpoint.handled, hr,
      Obs.isHandled, Obs.isPosted] at hnil ⊢
    exact hnil

theorem postSend_posted (e : Endpoint) (wr : SendWr) (sge : Sge) (op : WcOpcode) :
    (e.postSend wr sge 0).posted op = e.posted op + if wr.opcode.wc = op then 1 else 0 := by
  by_cases h : wr.opcode.wc = op <;> simp [Endpoint.posted, Endpoint.postSend, Obs.isPosted, h]

theorem postSend_handled (e : Endpoint) (wr : SendWr) (sge : Sge) (ret : Int)
    (op : WcOpcode) : (e.postSend wr sge ret).handled op = e.handled op := by
  by_cases h : ret = 0 <;> simp [Endpoint.handled, Endpoint.postSend, Obs.isHandled, h]

/-- Posting an RDMA operation when nothing is out. -/
theorem SerialInv.post {c c' : ServerConfig} {sge : Sge} (h : SerialInv c)
    (hnil : c.ep.unhandled = []) (hop : c.ep.cb.rdmaSqWr.opcode.wc.isRdma = true)
    (hep : c'.ep = c.ep.postSend c.ep.cb.rdmaSqWr sge 0)
    (hsq : c'.ep.cb.mainFields.sqWr.opcode = .send)
    (hopc : OpcodeAt c'.ep.cb.mainFields c'.pc)
    (hout : c'.ep.unhandled = [c.ep.cb.rdmaSqWr.opcode.wc] → OutAt c'.ep c'.pc)
    (hord : (∀ op, c'.ep.posted op
      = c.ep.posted op + if c.ep.cb.rdmaSqWr.opcode.wc = op then 1 else 0) →
      OrderAt c'.ep c'.pc) : SerialInv c' := by
  have hu : c'.ep.unhandled = [c.ep.cb.rdmaSqWr.opcode.wc] := by
    rw [hep]; exact postSend_unhandled hnil hop
  have hpo : ∀ op, c'.ep.posted op
      = c.ep.posted op + if c.ep.cb.rdmaSqWr.opcode.wc = op then 1 else 0 := by
    intro op; rw [hep]; exact postSend_posted _ _ _ _
  have hha : ∀ op, c'.ep.handled op = c.ep.handled op := by
    intro op; rw [hep]; exact postSend_handled _ _ _ _ _
  have hr := h.reads
  have hw := h.writes
  rw [hnil] at hr hw
  refine ⟨hsq, hopc, hout hu, hord hpo, ?_, ?_⟩
  · rw [hpo, hha, hu, List.count_singleton, beq_eq_decide]
    simp at hr ⊢
    omega
  · rw [hpo, hha, hu, List.count_singleton, beq_eq_decide]
    simp at hw ⊢
    omega

/-- The statements that post, wait for an RDMA operation or destroy the
queue pair. -/
def OwnStep : ServerPc → Bool
  | .readPost _ | .readWait _ | .writePost _ | .writeWait _ | .goAhead | .freeQp => true
  | _ => false

/-- All other statements post nothing, set an opcode only in front of its
post, and keep the order of READs and WRITEs. -/
theorem serverMain_quiet {N : Nat} {len : Option Nat} {inp : MainIn} {cb cb' : IbContext}
    {pc pc' : ServerPc} {call : Call}
    (h : serverMain N len inp cb pc = some (cb', pc', call)) (hpc : OwnStep pc = false)
    (hsq : cb.mainFields.sqWr.opcode = .send) :
    call.quiet = true ∧ OpcodeAt cb'.mainFields pc' ∧ cb'.mainFields.sqWr.opcode = .send ∧
      ∀ e, OrderAt e pc → OrderAt e pc' := by
  cases serverMain_move h with
  | readSet i | writeSet i => exact ⟨rfl, rfl, hsq, fun _ hord => hord⟩
  | readPost | readWoken | writePost | nextTurn | lastTurn | goAhead | freeQp => cases hpc
  | buffersReady => exact ⟨rfl, trivial, rfl, fun _ hord => hord⟩
  | startedEmpty => exact ⟨rfl, trivial, hsq, fun _ hord => hord⟩
  | _ => exact ⟨rfl, trivial, hsq, fun _ hord => hord⟩

section Main
variable {N i : Nat} {c c' : ServerConfig} {inp : MainIn}

/-- An operation is posted while `state` is below the value its wait
tests. -/
theorem SerialInv.postRdma {op : WrOpcode} {bound : TestState} {next : ServerPc}
    (h : SerialInv c) (hnil : c.ep.unhandled = []) (hop : c.ep.cb.rdmaSqWr.opcode = op)
    (hrdma : op.wc.isRdma = true) (hst : c.ep.cb.state < bound)
    (hopc : OpcodeAt c.ep.cb.mainFields next)
    (hwait : ∀ e, Waiting e op.wc bound → OutAt e next)
    (hord : ∀ e : Endpoint,
      (∀ op', e.posted op' = c.ep.posted op' + if op.wc = op' then 1 else 0) →
      OrderAt e next) :
    SerialInv { c with
      ep := c.ep.postSend c.ep.cb.rdmaSqWr c.ep.cb.rdmaSgl 0, pc := next } := by
  subst hop
  refine h.post hnil hrdma rfl h.sqWr hopc ?_ ?_
  · intro hu
    exact hwait _ (.inr ⟨hu, hst⟩)
  · intro hpo
    exact hord _ hpo

/-- The final SEND is no RDMA operation. -/
theorem SerialInv.goAhead (h : SerialInv c) (hpc : c.pc = .goAhead) :
    SerialInv { c with
      ep := c.ep.postSend c.ep.cb.sqWr c.ep.cb.sendSgl inp.ret, pc := .disconnect } := by
  have hout := h.out
  rw [hpc] at hout
  obtain ⟨hnil, hposted, hhandled⟩ := postSend_send c.ep.cb.sendSgl inp.ret hout h.sqWr
  refine h.idle hout hnil hposted hhandled ?_ trivial fun hord => by rwa [hpc] at hord
  by_cases hr : inp.ret = 0 <;> simpa [Endpoint.postSend, hr] using h.sqWr

/-- The main thread goes on with nothing out. -/
theorem SerialInv.goOn (h : SerialInv c) (hnil : c.ep.unhandled = []) {next : ServerPc}
    (hop : OpcodeAt c.ep.cb.mainFields next) (hord : OrderAt c.ep c.pc → OrderAt c.ep next) :
    SerialInv { c with pc := next } :=
  h.idle hnil hnil (fun _ _ => rfl) (fun _ => rfl) h.sqWr hop hord

theorem loopHead_serial (e : Endpoint) (h : e.posted .rdmaRead = e.posted .rdmaWrite) :
    OpcodeAt e.cb.mainFields (loopHead N i) ∧ OrderAt e (loopHead N i) := by
  unfold loopHead
  split
  · exact ⟨trivial, h⟩
  · exact ⟨trivial, h⟩

/-- A paced step of the main thread keeps the invariant. -/
theorem SerialInv.main (h : SerialInv c) (hs : step N c (.main inp) = some c')
    (hret : inp.ret = 0) (hsig : inp.signal = false) (hp : Paced c (.main inp)) :
    SerialInv c' := by
  have hout := h.out
  have hord := h.order
  cases hpc : c.pc with
  | readPost i =>
    rw [main_readPost hpc, hret] at hs
    cases hs
    simp only [Paced, hpc, PacedPost] at hp
    have hopc := h.opcode
    rw [hpc] at hout hord hopc
    refine h.postRdma hout hopc rfl hp trivial (fun _ hw => hw) fun e hpo => ?_
    have hr := hpo .rdmaRead
    have hw := hpo .rdmaWrite
    simp only [WrOpcode.wc, if_true, reduceCtorEq, if_false, OrderAt] at hr hw hord ⊢
    omega
  | writePost i =>
    rw [main_writePost hpc, hret] at hs
    cases hs
    simp only [Paced, hpc, PacedPost] at hp
    have hopc := h.opcode
    rw [hpc] at hout hord hopc
    refine h.postRdma hout hopc rfl hp trivial (fun _ hw => hw) fun e hpo => ?_
    have hr := hpo .rdmaRead
    have hw := hpo .rdmaWrite
    simp only [WrOpcode.wc, if_true, reduceCtorEq, if_false, OrderAt] at hr hw hord ⊢
    omega
  | goAhead =>
    rw [main_goAhead hpc] at hs
    cases hs
    exact h.goAhead hpc
  | readWait i =>
    obtain ⟨hst, rfl⟩ := main_wait (rdmaReadComplete ≤ c.ep.cb.state) hs (by rw [hpc]; rfl)
    rw [hpc] at hout hord
    have hnil := Waiting.done hout (hst.resolve_right (by simp [hsig]))
    exact h.goOn hnil trivial fun _ => hord
  | writeWait i =>
    obtain ⟨hst, rfl⟩ := main_wait (rdmaWriteComplete ≤ c.ep.cb.state) hs (by rw [hpc]; rfl)
    rw [hpc] at hout hord
    have hnil := Waiting.done hout (hst.resolve_right (by simp [hsig]))
    obtain ⟨hop, hord'⟩ := loopHead_serial (N := N) (i := i + 1) c.ep hord
    exact h.goOn hnil hop fun _ => hord'
  | freeQp =>
    -- the completion queue is gone, and nothing was out
    obtain ⟨cb, call, hm, hcall, -, -⟩ := step_main_call hs
    simp only [hpc, serverMain, Option.some.injEq, Prod.mk.injEq] at hm
    obtain ⟨rfl, hnext, rfl⟩ := hm
    simp only [Endpoint.call, Endpoint.destroyQp] at hcall
    split at hcall
    · cases hcall
    · rw [hpc] at hout hord
      rw [Option.some.injEq] at hcall
      refine h.idle hout ?_ (fun _ _ => ?_) (fun _ => ?_) ?_ ?_ fun _ => ?_
      · rw [← hcall]; simp [Endpoint.unhandled, Cq.empty]
      · rw [← hcall]; rfl
      · rw [← hcall]; rfl
      · rw [← hcall]; exact h.sqWr
      · rw [← hnext]; trivial
      · rw [← hnext]; exact hord
  | freed | oops =>
    obtain ⟨cb, pc, call, hm, -⟩ := step_main hs
    simp [hpc, serverMain] at hm
  | _ =>
    have hnil : c.ep.unhandled = [] := by rw [hpc] at hout; exact hout
    obtain ⟨cb', call', hm', hep, -, -⟩ := step_main_call hs
    obtain ⟨hq, hop', hsq', hord'⟩ := serverMain_quiet hm' (by simp [hpc, OwnStep]) h.sqWr
    obtain ⟨hcb, hsq2, hcq, -, hpo, hha⟩ := Endpoint.call_quiet hep hq
    refine h.idle hnil ?_ (fun op _ => hpo op) hha (by rw [hcb]; exact hsq')
      (by rw [hcb]; exact hop') (hord' c.ep)
    simp only [Endpoint.unhandled, hsq2, hcq]
    exact hnil

end Main

theorem SerialInv.step {N : Nat} {c c' : ServerConfig} {l : ServerLabel} (h : SerialInv c)
    (hsm : Smooth c l) (hp : Paced c l) (hs : step N c l = some c') : SerialInv c' := by
  cases l with
  | main inp => exact h.main hs hsm.1 hsm.2 hp
  | move =>
    obtain ⟨p, rest, hsq, -, -, hep, hpc, -, -, -⟩ := step_move hs
    have hu : c'.ep.unhandled = c.ep.unhandled := by
      simp [hep, Endpoint.unhandled, hsq]
    have hpo : ∀ op, c'.ep.posted op = c.ep.posted op := by intro op; rw [hep]; rfl
    have hha : ∀ op, c'.ep.handled op = c.ep.handled op := by intro op; rw [hep]; rfl
    have hcb : c'.ep.cb = c.ep.cb := by rw [hep]
    obtain ⟨h1, h2, h3, h4, h5, h6⟩ := h
    refine ⟨by rw [hcb]; exact h1, by rw [hcb, hpc]; exact h2, ?_, ?_, ?_, ?_⟩
    · rw [hpc]
      cases hq : c.pc <;> simp only [hq, OutAt, Waiting] at h3 ⊢ <;> rw [hu] <;>
        simpa only [hcb] using h3
    · rw [hpc]
      cases hq : c.pc <;> simp only [hq, OrderAt] at h4 ⊢ <;> rw [hpo, hpo] <;> exact h4
    · rw [hpo, hha, hu]; exact h5
    · rw [hpo, hha, hu]; exact h6
  | ep l =>
    obtain ⟨-, ep, he, rfl⟩ := step_ep hs
    exact h.ep he hp
  | reuse mem =>
    obtain ⟨-, rfl⟩ := step_reuse hs
    exact ⟨h.sqWr, h.opcode, h.out, h.order, h.reads, h.writes⟩

/-- **The RDMA operations are serialised in every paced run.** -/
theorem serialised_of_paced {N : Nat} {c₀ c : ServerConfig} (h₀ : AtLoop c₀)
    (h : Runs.Reach (step N) (fun a l => Smooth a l ∧ Paced a l) c₀ c) : Serialised c :=
  (h.invariant (P := SerialInv) h₀.serialInv
    fun _ _ _ ha hok hs => ha.step hok.1 hok.2 hs).serialised

/-! ## The loop of the source is not serialised -/

/-- The server at the loop after one advertisement of one byte, which
is a NUL. -/
def oneByte : ServerConfig where
  ep := { Endpoint.init { IbContext.init .big 1 64 with
            state := rdmaReadAdv, remoteLen := 1 } with
          cq := ⟨[], true, 0⟩, rq := 1 }
  pc := .startWait
  listening := true
  rdmaMem := List.replicate 64 0
  remoteMem := fun _ => 0

/-- The steps of one operation whose completion is handled at once: the
set-up, the post, the byte, the completion and the wait. -/
def promptOp : List ServerLabel :=
  [.main .ok, .main .ok, .move, .ep .complete, .ep .cqEnter, .ep (.cqPoll 0),
    .ep (.cqPoll 0), .main .ok]

/-- The peer sends an advertisement, and it is handled. -/
def advertised (a : RdmaInfo) : List ServerLabel :=
  [.ep (.land a 16 .success), .ep .cqEnter, .ep (.cqPoll 0), .ep (.cqPoll 0)]

/-- Set-up, post and wait of one operation, its completion still to come. -/
def overlappedOp : List ServerLabel := [.main .ok, .main .ok, .main .ok]

/-- One serialised iteration, then a READ and a WRITE that are out
together: the second READ's wait is already over. -/
def overlapRun : List ServerLabel :=
  [.main .ok] ++ promptOp ++ promptOp ++ overlappedOp ++ [.main .ok, .main .ok]

theorem oneByte_atLoop : AtLoop oneByte :=
  ⟨rfl, rfl, rfl, fun op h => by cases op <;> exact ⟨rfl, rfl⟩⟩

/-- Two iterations with a second advertisement between them, the
completions of each handled before its waits are over. -/
def twoTurns : List ServerLabel :=
  [.main .ok] ++ promptOp ++ promptOp ++ advertised ⟨0, 0, 1⟩ ++ promptOp ++ promptOp

/-- The run is paced, and passes both operations of both iterations. -/
theorem oneByte_serialised :
    AtLoop oneByte ∧ ∃ c,
      Runs.Reach (step 2) (fun a l => Smooth a l ∧ Paced a l) oneByte c ∧
      c.pc = .disconnect ∧ c.ep.posted .rdmaWrite = 2 ∧ Serialised c := by
  obtain ⟨c, hrun, hpc, hpost⟩ : ∃ c, Runs.exec (step 2) (fun a l => Smooth a l ∧ Paced a l)
      oneByte (twoTurns ++ [.main .ok]) = some c ∧
      c.pc = .disconnect ∧ c.ep.posted .rdmaWrite = 2 := ⟨_, rfl, rfl, by decide⟩
  have hreach := Runs.reach_of_exec hrun
  exact ⟨oneByte_atLoop, c, hreach, hpc, hpost, serialised_of_paced oneByte_atLoop hreach⟩

theorem not_serialised_ten :
    ¬ ∀ c₀ c, AtLoop c₀ → Runs.Reach (step 10) Healthy c₀ c → Serialised c := by
  intro hall
  obtain ⟨c, hrun, hout⟩ : ∃ c, Runs.exec (step 10) Healthy oneByte overlapRun = some c ∧
      c.ep.unhandled.length = 2 := ⟨_, rfl, by decide⟩
  have := (hall oneByte c oneByte_atLoop (Runs.reach_of_exec hrun)).one_out
  omega

end ServerConfig

end MegaVM
