import MegaVM.Server.Serial

/-!
# The teardown is not quiescent

`start_MegaVM_server` ends by posting the go-ahead SEND, and
`megaVM_StartServer` calls `rdma_disconnect` as its next step: nothing
waits for the SEND, and the READs and WRITEs of all iterations but the
first are waited for by conditions that already hold.

`QuiescentTeardown` is the intended teardown. The two halves of it go
different ways:

* the RDMA operations are done at all three points in the runs whose waits
  really wait (`rdmaQuiescent_of_paced`);
* the go-ahead can be on the send queue at `rdma_disconnect` from every
  input from which the teardown is reached at all. The ones from which it
  is not are those where `strlen` never finds a NUL (`NoNul`), and so
  `quiescentTeardown_iff` says when the whole of it holds.
-/

namespace MegaVM

open TestState

namespace ServerConfig

/-- RDMA work requests posted and not completed. -/
def rdmaPending (c : ServerConfig) : List Posted :=
  c.ep.sq.filter (·.wr.opcode.wc.isRdma)

/-- The send queue when the main thread posts the go-ahead, calls
`rdma_disconnect` and calls `megaVM_free_buffers`. -/
structure Quiescent (c : ServerConfig) : Prop where
  goAhead : c.pc = .goAhead → c.rdmaPending = []
  disconnect : c.pc = .disconnect → c.ep.sq = []
  freeBuffers : c.pc = .freeBuffers → c.ep.sq = []

/-- In every run of the server from the input whose steps are `ok`,
whatever state the main thread takes a step from is quiescent. -/
def QuiescentFrom (ok : ServerConfig → ServerLabel → Prop) (N : Nat) (host : Endian) (size : Nat)
    (mem : List Byte) (remote : BitVec 64 → Byte) : Prop :=
  ∀ c inp c', Runs.Reach (step N) ok (init host size mem remote) c →
    ok c (.main inp) → step N c (.main inp) = some c' → Quiescent c

/-- The teardown with loop bound `N`, whatever the input. -/
def QuiescentTeardown (ok : ServerConfig → ServerLabel → Prop) (N : Nat) : Prop :=
  ∀ host size mem remote, size ≤ mem.length → QuiescentFrom ok N host size mem remote

/-! ## The RDMA operations -/

/-- No RDMA operation is out at the three points of the teardown. -/
structure RdmaQuiescent (c : ServerConfig) : Prop where
  goAhead : c.pc = .goAhead → c.rdmaPending = []
  disconnect : c.pc = .disconnect → c.rdmaPending = []
  freeBuffers : c.pc = .freeBuffers → c.rdmaPending = []

theorem init_serialInv (host : Endian) (size : Nat) (mem : List Byte)
    (remote : BitVec 64 → Byte) : SerialInv (init host size mem remote) :=
  ⟨rfl, trivial, rfl, rfl, rfl, rfl⟩

theorem unhandled_nil_rdmaPending {c : ServerConfig} (h : c.ep.unhandled = []) :
    c.rdmaPending = [] := by
  simp only [Endpoint.unhandled, List.filter_append, List.append_eq_nil_iff,
    List.filter_map, List.map_eq_nil_iff] at h
  exact h.2

theorem SerialInv.rdmaQuiescent {c : ServerConfig} (h : SerialInv c) : RdmaQuiescent c where
  goAhead hpc := unhandled_nil_rdmaPending (by simpa only [hpc, OutAt] using h.out)
  disconnect hpc := unhandled_nil_rdmaPending (by simpa only [hpc, OutAt] using h.out)
  freeBuffers hpc := unhandled_nil_rdmaPending (by simpa only [hpc, OutAt] using h.out)

theorem rdmaQuiescent_of_paced {N : Nat} {c₀ c : ServerConfig} (h₀ : SerialInv c₀)
    (h : Runs.Reach (step N) (fun a l => Smooth a l ∧ Paced a l) c₀ c) : RdmaQuiescent c :=
  (h.invariant (P := SerialInv) h₀
    fun _ _ _ ha hok hs => ha.step hok.1 hok.2 hs).rdmaQuiescent

/-! ## The inputs without a teardown -/

/-- The loop is entered, and `strlen` will find no NUL: there is none from
`rdma_buf` on, and a READ brings none. -/
def NoNul (N : Nat) (mem : List Byte) (remote : BitVec 64 → Byte) : Prop :=
  0 < N ∧ (∀ b ∈ mem, b ≠ 0) ∧ (mem = [] ∨ ∀ a, remote a ≠ 0)

/-- Where a READ may be on the send queue. -/
def MayRead : ServerPc → Bool
  | .readWait _ | .writeSet _ | .oops => true
  | _ => false

/-- What comes after `strlen`. -/
def PastStrlen : ServerPc → Bool
  | .writePost _ | .writeWait _ | .goAhead | .disconnect => true
  | _ => false

/-- The first iteration does not get past `strlen`. -/
structure Stuck (c : ServerConfig) : Prop where
  early : PastStrlen c.pc = false
  noNul : bufferGone c.pc = false → NoNul 1 c.rdmaMem c.remoteMem
  reads : ∀ p ∈ c.ep.sq, p.wr.opcode = .rdmaRead
  empty : MayRead c.pc = false → c.ep.sq = []
  opcode : ∀ i, c.pc = .readPost i → c.ep.cb.mainFields.rdmaSqWr.opcode = .rdmaRead

theorem strlen_of_noNul {mem : List Byte} (h : ∀ b ∈ mem, b ≠ 0) : strlen mem = none := by
  rw [strlen, List.findIdx?_eq_none_iff]
  intro b hb
  simpa using h b hb

theorem Stuck.quiescent {c : ServerConfig} (h : Stuck c) : Quiescent c where
  goAhead hpc := by
    have hearly := h.early
    rw [hpc] at hearly
    cases hearly
  disconnect hpc := h.empty (by rw [hpc]; rfl)
  freeBuffers hpc := h.empty (by rw [hpc]; rfl)

theorem init_stuck {N : Nat} {host : Endian} {size : Nat} {mem : List Byte}
    {remote : BitVec 64 → Byte} (h : NoNul N mem remote) : Stuck (init host size mem remote) where
  early := rfl
  noNul _ := ⟨Nat.one_pos, h.2⟩
  reads p hp := absurd hp List.not_mem_nil
  empty _ := rfl
  opcode i hpc := by cases hpc

/-- Where a step of the main thread leads while `strlen` finds nothing. -/
theorem serverMain_stuck {N : Nat} {len : Option Nat} {inp : MainIn} {cb cb' : IbContext}
    {pc pc' : ServerPc} {call : Call} (h : serverMain N len inp cb pc = some (cb', pc', call))
    (hN : 0 < N) (hpc : PastStrlen pc = false) (hlen : ∀ i, pc = .writeSet i → len = none) :
    PastStrlen pc' = false ∧ (bufferGone pc' = false → bufferGone pc = false) ∧
      (∀ i, pc' = .readPost i → cb'.mainFields.rdmaSqWr.opcode = .rdmaRead) ∧
      ((∃ i, pc = .readPost i ∧ MayRead pc' = true ∧ cb' = cb ∧
          call = .postSend cb'.rdmaSqWr cb'.rdmaSgl) ∨
        (∀ wr sge, call ≠ .postSend wr sge) ∧ (MayRead pc' = false → MayRead pc = false)) := by
  cases serverMain_move h with
  | startedEmpty _ hzero => omega
  | readPost i => exact ⟨rfl, fun _ => rfl, by simp, .inl ⟨i, rfl, rfl, rfl, rfl⟩⟩
  | readSet i => exact ⟨rfl, fun _ => rfl, fun _ _ => rfl, .inr ⟨by simp, fun _ => rfl⟩⟩
  | writeSet i _ hn =>
    rw [hlen i rfl] at hn
    cases hn
  | writePost | nextTurn | lastTurn | goAhead | disconnect => cases hpc
  | _ => simp_all [PastStrlen, bufferGone, MayRead]

theorem Stuck.main {N : Nat} {c c' : ServerConfig} {inp : MainIn} (h : Stuck c) (hN : 0 < N)
    (hs : step N c (.main inp) = some c') : Stuck c' := by
  obtain ⟨cb, call, hm, hep, hmem, hremote⟩ := step_main_call hs
  have hlen : ∀ i, c.pc = .writeSet i → strlen c.rdmaMem = none := fun i hpc =>
    strlen_of_noNul (h.noNul (by rw [hpc]; rfl)).2.1
  obtain ⟨hearly, hgone, hopc, hcall⟩ := serverMain_stuck hm hN h.early hlen
  have hcb : c'.ep.cb = cb := Endpoint.call_cb hep
  refine ⟨hearly, fun hno => ?_, ?_, ?_, fun i hpc => by rw [hcb]; exact hopc i hpc⟩
  · rw [hmem, hremote]
    exact h.noNul (hgone hno)
  · rcases hcall with ⟨i, hpc, -, hsame, rfl⟩ | ⟨hpost, -⟩
    · -- the READ joins the queue
      obtain ⟨-, -, new, hsq, hnew⟩ :=
        Endpoint.postSend_sq { c.ep with cb } cb.rdmaSqWr cb.rdmaSgl inp.ret
      have hsq' : c'.ep.sq = c.ep.sq ++ new := by
        rw [← Option.some.inj hep]
        exact hsq
      intro p hp
      rw [hsq'] at hp
      rcases List.mem_append.mp hp with hp | hp
      · exact h.reads p hp
      · rw [hnew p hp, hsame]
        exact h.opcode i hpc
    · rcases (Endpoint.call_sq hpost hep).1 with heq | heq
      · rw [heq]
        exact h.reads
      · rw [heq]
        exact fun p hp => absurd hp List.not_mem_nil
  · intro hno
    rcases hcall with ⟨i, -, hread, -, -⟩ | ⟨hpost, hfrom⟩
    · rw [hread] at hno
      cases hno
    · rcases (Endpoint.call_sq hpost hep).1 with heq | heq
      · exact heq.trans (h.empty (hfrom hno))
      · exact heq

/-- A READ brings no NUL. -/
theorem NoNul.set {mem : List Byte} {remote : BitVec 64 → Byte} (h : NoNul 1 mem remote) (k : Nat)
    (a : BitVec 64) : NoNul 1 (mem.set k (remote a)) remote := by
  obtain ⟨hN, hmem, hremote⟩ := h
  refine ⟨hN, fun b hb => ?_, ?_⟩
  · rcases List.mem_or_eq_of_mem_set hb with hb | rfl
    · exact hmem b hb
    · rcases hremote with rfl | hremote
      · cases hb
      · exact hremote a
  · rcases hremote with rfl | hremote
    · exact .inl rfl
    · exact .inr hremote

theorem Stuck.move {N : Nat} {c c' : ServerConfig} (h : Stuck c) (hs : step N c .move = some c') :
    Stuck c' := by
  obtain ⟨p, rest, hsq, -, -, hep, hpc, -, hmem, hremote⟩ := step_move hs
  have hread : p.wr.opcode = .rdmaRead := h.reads p (by rw [hsq]; exact List.mem_cons_self)
  rw [if_pos hread] at hmem
  rw [if_neg (by rw [hread]; decide)] at hremote
  refine ⟨by rw [hpc]; exact h.early, fun hno => ?_, fun q hq => ?_, fun hno => ?_, fun i hi => ?_⟩
  · rw [hpc] at hno
    rw [hmem, hremote]
    exact (h.noNul hno).set _ _
  · rw [hep] at hq
    rcases List.mem_cons.mp hq with rfl | hq
    · exact hread
    · exact h.reads q (by rw [hsq]; exact List.mem_cons_of_mem p hq)
  · rw [hpc] at hno
    rw [h.empty hno] at hsq
    cases hsq
  · rw [hep]
    exact h.opcode i (hpc ▸ hi)

theorem Stuck.step {N : Nat} {c c' : ServerConfig} {l : ServerLabel} (h : Stuck c) (hN : 0 < N)
    (hs : step N c l = some c') : Stuck c' := by
  cases l with
  | main inp => exact h.main hN hs
  | move => exact h.move hs
  | ep l =>
    obtain ⟨-, ep, he, rfl⟩ := step_ep hs
    have hmem := Endpoint.step_sq_mem he
    refine ⟨h.early, h.noNul, fun p hp => h.reads p (hmem p hp), fun hno => ?_, fun i hi => ?_⟩
    · have hnil := h.empty hno
      rw [hnil] at hmem
      exact List.eq_nil_iff_forall_not_mem.mpr fun p hp => List.not_mem_nil (hmem p hp)
    · show ep.cb.mainFields.rdmaSqWr.opcode = .rdmaRead
      rw [Endpoint.step_mainFields serverHook_framed he]
      exact h.opcode i hi
  | reuse mem =>
    obtain ⟨hgone, rfl⟩ := step_reuse hs
    refine ⟨h.early, fun hno => ?_, h.reads, h.empty, h.opcode⟩
    rw [hgone] at hno
    cases hno

/-! ## The runs to the teardown -/

section Reaching
variable {N i n : Nat} {c₀ c : ServerConfig}

/-- A step of the main thread that only needs its call to succeed. -/
theorem reach_main {c' : ServerConfig} (h : Runs.Reach (step N) Healthy c₀ c)
    (hs : step N c (.main .ok) = some c') : Runs.Reach (step N) Healthy c₀ c' :=
  .tail (.main .ok) h (show Healthy c (.main .ok) from ⟨⟨rfl, rfl⟩, trivial⟩) hs

theorem reach_ep {ep : Endpoint} {l : EpLabel} (h : Runs.Reach (step N) Healthy c₀ c)
    (hl : HealthyEp l) (hopen : c.cmOpen l = true) (hs : c.ep.step serverHook l = some ep) :
    Runs.Reach (step N) Healthy c₀ { c with ep } := by
  refine .tail (.ep l) h (show Healthy c (.ep l) from ⟨trivial, hl⟩) ?_
  rw [step, if_pos hopen, hs]
  rfl

/-- The HCA moves a byte of a READ. -/
theorem reach_byte {p : Posted} {rest : List Posted} (h : Runs.Reach (step N) Healthy c₀ c)
    (hsq : c.ep.sq = p :: rest) (herr : c.ep.qpErr = false) (hop : p.wr.opcode = .rdmaRead)
    (hlt : p.moved < p.sge.length.toNat) :
    Runs.Reach (step N) Healthy c₀ { c with
      ep := { c.ep with sq := { p with moved := p.moved + 1 } :: rest }
      rdmaMem := c.rdmaMem.set p.moved
        (c.remoteMem (p.wr.remoteAddr + BitVec.ofNat 64 p.moved)) } := by
  refine .tail .move h (show Healthy c .move from ⟨trivial, trivial⟩) ?_
  have hgo : ¬(c.ep.qpErr = true ∨ p.sge.length.toNat ≤ p.moved) := by
    rw [herr]
    simpa using hlt
  simp only [step, moveByte, hsq, if_neg hgo, hop]

/-- The HCA moves what is left of a WRITE. -/
theorem reach_moved (k : Nat) {p : Posted} {rest : List Posted}
    (h : Runs.Reach (step N) Healthy c₀ c) (hsq : c.ep.sq = p :: rest) (herr : c.ep.qpErr = false)
    (hop : p.wr.opcode = .rdmaWrite) (hk : p.moved + k = p.sge.length.toNat) :
    ∃ remote, Runs.Reach (step N) Healthy c₀ { c with
      ep := { c.ep with sq := { p with moved := p.sge.length.toNat } :: rest }
      remoteMem := remote } := by
  -- by induction on the bytes to go
  induction k generalizing c p with
  | zero =>
    refine ⟨c.remoteMem, ?_⟩
    rw [← hk, Nat.add_zero, ← hsq]
    exact h
  | succ k ih =>
    have hlt : ¬(c.ep.qpErr = true ∨ p.sge.length.toNat ≤ p.moved) := by
      rw [herr]
      simp
      omega
    have hmove := Runs.Reach.tail .move h (show Healthy c .move from ⟨trivial, trivial⟩)
      (show step N c .move = some { c with
        ep := { c.ep with sq := { p with moved := p.moved + 1 } :: rest }
        remoteMem := Function.update c.remoteMem (p.wr.remoteAddr + BitVec.ofNat 64 p.moved)
          (c.rdmaMem.getD p.moved 0) } by
        simp only [step, moveByte, hsq, if_neg hlt, hop])
    obtain ⟨remote, hreach⟩ := ih hmove rfl herr hop (by
      show p.moved + 1 + k = p.sge.length.toNat
      omega)
    exact ⟨remote, hreach⟩

/-- Nothing is out, and the next completion is announced. -/
structure Resting (c : ServerConfig) : Prop where
  sq : c.ep.sq = []
  cq : c.ep.cq = ⟨[], true, 0⟩
  draining : c.ep.draining = false
  qpErr : c.ep.qpErr = false

/-- The only work request completes, and its completion is handled. -/
theorem reach_handled {p : Posted} (h : Runs.Reach (step N) Healthy c₀ c) (hsq : c.ep.sq = [p])
    (hcq : c.ep.cq = ⟨[], true, 0⟩) (hdrain : c.ep.draining = false) (herr : c.ep.qpErr = false)
    (hst : c.ep.cb.state ≠ error) (hmoved : p.moved = p.sge.length.toNat) :
    ∃ ep, Runs.Reach (step N) Healthy c₀ { c with ep } ∧ Resting { c with ep } ∧
      (p.wr.opcode = .rdmaRead → ep.cb.state = rdmaReadComplete) ∧
      (p.wr.opcode = .rdmaWrite → ep.cb.state = rdmaWriteComplete) := by
  have h1 := reach_ep h (l := .complete) trivial rfl
    (show _ = some (c.ep.retire p [] .success) by simp [Endpoint.step, hsq, herr, hmoved])
  have h2 := reach_ep h1 (l := .cqEnter) trivial rfl
    (show _ = some { c.ep.retire p [] .success with
      cq := ⟨[⟨.success, p.wr.opcode.wc, p.sge.length⟩], true, 0⟩, draining := true } by
        simp [Endpoint.step, Endpoint.cqEnter, Endpoint.retire, Cq.add, hcq, hdrain, hst])
  cases hop : p.wr.opcode with
  | send =>
    rw [hop] at h2
    have h3 := reach_ep h2 (l := .cqPoll 0) rfl rfl rfl
    have h4 := reach_ep h3 (l := .cqPoll 0) rfl rfl rfl
    exact ⟨_, h4, ⟨rfl, rfl, rfl, herr⟩, by simp, by simp⟩
  | rdmaRead =>
    rw [hop] at h2
    have h3 := reach_ep h2 (l := .cqPoll 0) rfl rfl rfl
    have h4 := reach_ep h3 (l := .cqPoll 0) rfl rfl rfl
    exact ⟨_, h4, ⟨rfl, rfl, rfl, herr⟩, fun _ => rfl, by simp⟩
  | rdmaWrite =>
    rw [hop] at h2
    have h3 := reach_ep h2 (l := .cqPoll 0) rfl rfl rfl
    have h4 := reach_ep h3 (l := .cqPoll 0) rfl rfl rfl
    exact ⟨_, h4, ⟨rfl, rfl, rfl, herr⟩, by simp, fun _ => rfl⟩

/-- A READ of at most one byte that completes before its wait. -/
theorem reach_read (h : Runs.Reach (step N) Healthy c₀ c) (hpc : c.pc = .readSet i)
    (hrest : Resting c) (hst : c.ep.cb.state ≠ error)
    (hlen : c.ep.cb.remoteLen = 0 ∨ c.ep.cb.remoteLen = 1) :
    ∃ c', Runs.Reach (step N) Healthy c₀ c' ∧ c'.pc = .writeSet i ∧ Resting c' ∧
      c'.ep.cb.state = rdmaReadComplete ∧
      (c.ep.cb.remoteLen = 0 → c'.rdmaMem = c.rdmaMem) ∧
      (c.ep.cb.remoteLen = 1 →
        c'.rdmaMem = c.rdmaMem.set 0 (c.remoteMem c.ep.cb.remoteAddr)) := by
  obtain ⟨hsq, hcq, hdrain, herr⟩ := hrest
  have h1 := reach_main h (main_readSet hpc)
  have h2 := reach_main h1 (main_readPost rfl)
  simp only [Endpoint.postSend, MainIn.ok, hsq, if_true, List.nil_append] at h2
  rcases hlen with hlen | hlen
  · obtain ⟨ep, h3, hrest, hdone, -⟩ := reach_handled h2 rfl hcq hdrain herr hst (by
      show 0 = c.ep.cb.remoteLen.toNat
      rw [hlen]
      rfl)
    have h4 := reach_main h3 (main_readWait rfl (.inl (by rw [hdone rfl]; exact Nat.le_refl _)))
    refine ⟨_, h4, rfl, ⟨hrest.sq, hrest.cq, hrest.draining, hrest.qpErr⟩, hdone rfl,
      fun _ => rfl, fun hone => ?_⟩
    rw [hlen] at hone
    exact absurd hone (by decide)
  · have hone : c.ep.cb.remoteLen.toNat = 1 := by
      rw [hlen]
      rfl
    have h3 := reach_byte h2 rfl herr rfl (show 0 < c.ep.cb.remoteLen.toNat by omega)
    obtain ⟨ep, h4, hrest, hdone, -⟩ := reach_handled h3 rfl hcq hdrain herr hst hone.symm
    have h5 := reach_main h4 (main_readWait rfl (.inl (by rw [hdone rfl]; exact Nat.le_refl _)))
    refine ⟨_, h5, rfl, ⟨hrest.sq, hrest.cq, hrest.draining, hrest.qpErr⟩, hdone rfl,
      fun hzero => ?_, fun _ => ?_⟩
    · rw [hlen] at hzero
      exact absurd hzero (by decide)
    · show c.rdmaMem.set 0 (c.remoteMem (c.ep.cb.remoteAddr + BitVec.ofNat 64 0)) = _
      rw [BitVec.add_zero]

/-- A WRITE that completes before its wait. -/
theorem reach_write (h : Runs.Reach (step N) Healthy c₀ c) (hpc : c.pc = .writeSet i)
    (hlen : strlen c.rdmaMem = some n) (hrest : Resting c) (hst : c.ep.cb.state ≠ error) :
    ∃ c', Runs.Reach (step N) Healthy c₀ c' ∧ c'.pc = loopHead N (i + 1) ∧
      c'.ep.cb.state = rdmaWriteComplete ∧ strlen c'.rdmaMem = some n := by
  obtain ⟨hsq, hcq, hdrain, herr⟩ := hrest
  have h1 := reach_main h (main_writeSet hpc hlen)
  have h2 := reach_main h1 (main_writePost rfl)
  obtain ⟨remote, h3⟩ := reach_moved _ h2
    (show _ = [⟨(setWrite c.ep.cb n).rdmaSqWr, (setWrite c.ep.cb n).rdmaSgl, 0⟩] by
      simp [Endpoint.postSend, MainIn.ok, hsq])
    (by simpa [Endpoint.postSend, MainIn.ok] using herr) rfl (Nat.zero_add _)
  obtain ⟨ep, h4, -, -, hdone⟩ := reach_handled h3 rfl hcq hdrain herr hst rfl
  have h5 := reach_main h4 (main_writeWait rfl (.inl (by rw [hdone rfl]; exact Nat.le_refl _)))
  exact ⟨_, h5, rfl, hdone rfl, hlen⟩

/-- Set-up, post and wait of both operations of an iteration whose waits
are over before it starts: the READ and the WRITE stay on the send queue. -/
theorem iteration_overlapped (h : Runs.Reach (step N) Healthy c₀ c) (hpc : c.pc = .readSet i)
    (hst : c.ep.cb.state = rdmaWriteComplete) (hlen : strlen c.rdmaMem = some n) :
    ∃ c', Runs.Reach (step N) Healthy c₀ c' ∧ c'.pc = loopHead N (i + 1) ∧
      c'.ep.cb.state = rdmaWriteComplete ∧ strlen c'.rdmaMem = some n ∧
      c'.rdmaPending ≠ [] := by
  have h1 := reach_main h (main_readSet hpc)
  have h2 := reach_main h1 (main_readPost rfl)
  have h3 := reach_main h2 (main_readWait rfl (.inl (by
    show rdmaReadComplete ≤ c.ep.cb.state; rw [hst]; decide)))
  have h4 := reach_main h3 (main_writeSet rfl hlen)
  have h5 := reach_main h4 (main_writePost rfl)
  have h6 := reach_main h5 (main_writeWait rfl (.inl (by
    show rdmaWriteComplete ≤ c.ep.cb.state; rw [hst]; decide)))
  refine ⟨_, h6, rfl, hst, hlen, ?_⟩
  simp [rdmaPending, Endpoint.postSend, MainIn.ok, setWrite, WrOpcode.wc, WcOpcode.isRdma]

/-- From the head of the loop with its waits over, the main thread reaches
the go-ahead alone; the operations of the iterations it makes stay on the
send queue. -/
theorem loop_overlapped (k : Nat) {i : Nat} {c : ServerConfig} (hN : i + k = N)
    (h : Runs.Reach (step N) Healthy c₀ c) (hpc : c.pc = loopHead N i)
    (hst : c.ep.cb.state = rdmaWriteComplete) (hlen : strlen c.rdmaMem = some n) :
    ∃ c', Runs.Reach (step N) Healthy c₀ c' ∧ c'.pc = .goAhead ∧
      (0 < k ∨ c.rdmaPending ≠ [] → c'.rdmaPending ≠ []) := by
  -- by induction on the iterations to go; every wait is over before it starts
  induction k generalizing i c with
  | zero =>
    have hi : ¬ i < N := by omega
    exact ⟨c, h, by rw [hpc, loopHead, if_neg hi], fun hp => by simpa using hp⟩
  | succ k ih =>
    have hi : i < N := by omega
    rw [loopHead, if_pos hi] at hpc
    -- the operations of this iteration are on the queue, and those to come add to it
    obtain ⟨c1, h1, hpc1, hst1, hlen1, hpend⟩ := iteration_overlapped h hpc hst hlen
    obtain ⟨c2, h2, hpc2, hpend2⟩ := ih (by omega) h1 hpc1 hst1 hlen1
    exact ⟨c2, h2, hpc2, fun _ => hpend2 (.inr hpend)⟩

end Reaching

section Inputs
variable (N : Nat) (host : Endian) (size : Nat) (mem : List Byte) (remote : BitVec 64 → Byte)

/-- One advertisement, and the main thread is at the head of the loop. -/
theorem startup_run (a : RdmaInfo) : ∃ c,
    Runs.exec (step N) Healthy (init host size mem remote) (startup a) = some c ∧
      c.pc = loopHead N 0 ∧ Resting c ∧ c.ep.cb.state = rdmaReadAdv ∧ c.rdmaMem = mem ∧
      c.remoteMem = remote ∧ c.ep.cb.remoteAddr = ntohll host a.buf ∧
      c.ep.cb.remoteLen = ntohl host a.size :=
  ⟨_, rfl, rfl, ⟨rfl, rfl, rfl, rfl⟩, rfl, rfl, rfl, rfl, rfl⟩

variable {N mem remote}

/-- The first READ completes before its wait and leaves a NUL. -/
theorem first_read (h : ¬ NoNul (N + 1) mem remote) : ∃ c n,
    Runs.Reach (step (N + 1)) Healthy (init host size mem remote) c ∧ c.pc = .writeSet 0 ∧
      Resting c ∧ c.ep.cb.state = rdmaReadComplete ∧ strlen c.rdmaMem = some n := by
  have hsome : ∀ {m : List Byte}, (0 : Byte) ∈ m → ∃ n, strlen m = some n := by
    intro m hm
    refine Option.isSome_iff_exists.mp ?_
    rw [strlen, List.findIdx?_isSome]
    simpa using hm
  by_cases hmem : (0 : Byte) ∈ mem
  · -- an empty READ leaves the buffer as it is
    obtain ⟨c, hrun, hpc, hrest, hst, hmem', -, -, hlen⟩ :=
      startup_run (N + 1) host size mem remote ⟨0, 0, htonl host 0⟩
    have hzero : c.ep.cb.remoteLen = 0 := by
      rw [hlen]
      cases host <;> decide
    obtain ⟨c', h', hpc', hrest', hst', hsame, -⟩ :=
      reach_read (Runs.reach_of_exec hrun) hpc hrest (by rw [hst]; decide) (.inl hzero)
    obtain ⟨n, hn⟩ := hsome hmem
    exact ⟨c', n, h', hpc', hrest', hst', by rw [hsame hzero, hmem', hn]⟩
  · -- a READ of one byte of the peer's brings one
    obtain ⟨addr, hne, haddr⟩ : ∃ addr, mem ≠ [] ∧ remote addr = 0 := by
      by_contra hno
      push Not at hno
      refine h ⟨Nat.succ_pos N, fun b hb hzero => hmem (hzero ▸ hb), ?_⟩
      by_cases hnil : mem = []
      · exact .inl hnil
      · exact .inr fun a => hno a hnil
    obtain ⟨c, hrun, hpc, hrest, hst, hmem', hremote, ha, hlen⟩ :=
      startup_run (N + 1) host size mem remote ⟨htonll host addr, 0, htonl host 1⟩
    have hone : c.ep.cb.remoteLen = 1 := by
      rw [hlen]
      show ntohl host (htonl host 1) = 1
      cases host <;> decide
    have ha' : c.ep.cb.remoteAddr = addr := by
      rw [ha]
      cases host with
      | little => exact bswap64_bswap64 addr
      | big => rfl
    obtain ⟨c', h', hpc', hrest', hst', -, hset⟩ :=
      reach_read (Runs.reach_of_exec hrun) hpc hrest (by rw [hst]; decide) (.inr hone)
    have hnul : (0 : Byte) ∈ mem.set 0 0 := List.mem_set (List.length_pos_iff.mpr hne) 0
    obtain ⟨n, hn⟩ := hsome hnul
    refine ⟨c', n, h', hpc', hrest', hst', ?_⟩
    rw [hset hone, hmem', hremote, ha', haddr, hn]

/-- Every input with a NUL to find, and the empty loop, have a run to the
go-ahead; from two iterations on with operations still on the send queue. -/
theorem goAhead_reached (h : ¬ NoNul N mem remote) : ∃ c,
    Runs.Reach (step N) Healthy (init host size mem remote) c ∧ c.pc = .goAhead ∧
      (2 ≤ N → c.rdmaPending ≠ []) := by
  cases N with
  | zero =>
    obtain ⟨c, hrun, hpc, -⟩ := startup_run 0 host size mem remote ⟨0, 0, 0⟩
    exact ⟨c, Runs.reach_of_exec hrun, hpc, fun h => by omega⟩
  -- the first iteration leaves `RDMA_WRITE_COMPLETE`, which ends all later waits
  | succ N =>
    obtain ⟨c, n, hread, hpc, hrest, hst, hlen⟩ := first_read host size h
    obtain ⟨c', h', hpc', hst', hlen'⟩ :=
      reach_write hread hpc hlen hrest (by rw [hst]; decide)
    obtain ⟨c'', h'', hpc'', hpend⟩ := loop_overlapped N (by omega) h' hpc' hst' hlen'
    exact ⟨c'', h'', hpc'', fun h => hpend (.inl (by omega))⟩

/-- From the go-ahead the next step of the main thread is
`rdma_disconnect`, with the go-ahead on the send queue. -/
theorem goAhead_outstanding {c₀ c : ServerConfig} (h : Runs.Reach (step N) Healthy c₀ c)
    (hpc : c.pc = .goAhead) : ∃ c' c'', Runs.Reach (step N) Healthy c₀ c' ∧ c'.pc = .disconnect ∧
      c'.ep.sq ≠ [] ∧ step N c' (.main .ok) = some c'' :=
  ⟨_, _, reach_main h (main_goAhead hpc), rfl, by simp [Endpoint.postSend, MainIn.ok],
    main_disconnect rfl⟩

theorem not_quiescentFrom {c : ServerConfig}
    (h : Runs.Reach (step N) Healthy (init host size mem remote) c) (hpc : c.pc = .goAhead) :
    ¬ QuiescentFrom Healthy N host size mem remote := by
  obtain ⟨c', c'', h', hpc', hsq, hs⟩ := goAhead_outstanding h hpc
  exact fun hall => hsq ((hall c' .ok c'' h' ⟨⟨rfl, rfl⟩, trivial⟩ hs).disconnect hpc')

end Inputs

theorem boot_nul (N : Nat) : ¬ NoNul N (List.replicate 64 0) fun _ => 0 := fun h =>
  h.2.1 0 (List.mem_replicate.mpr ⟨by decide, rfl⟩) rfl

/-- **When the teardown is quiescent.** In the runs whose waits really wait,
as far as the RDMA operations go; with the go-ahead, from no input from
which a run comes to the teardown. -/
theorem quiescentTeardown_iff (N : Nat) (host : Endian) (size : Nat) (mem : List Byte)
    (remote : BitVec 64 → Byte) :
    (∀ c, Runs.Reach (step N) (fun a l => Smooth a l ∧ Paced a l) (init host size mem remote) c →
      RdmaQuiescent c) ∧
    (∀ c, Runs.Reach (step N) Healthy (init host size mem remote) c → c.pc = .goAhead →
      ∃ c' c'', Runs.Reach (step N) Healthy (init host size mem remote) c' ∧
        c'.pc = .disconnect ∧ c'.ep.sq ≠ [] ∧ step N c' (.main .ok) = some c'') ∧
    (QuiescentFrom Healthy N host size mem remote ↔ NoNul N mem remote) := by
  refine ⟨fun c h => rdmaQuiescent_of_paced (init_serialInv host size mem remote) h,
    fun c h hpc => goAhead_outstanding h hpc, fun hall => ?_, fun hno c _ _ h _ _ => ?_⟩
  · by_contra hno
    obtain ⟨c, h, hpc, -⟩ := goAhead_reached host size hno
    exact not_quiescentFrom host size h hpc hall
  · exact (h.invariant (P := Stuck) (init_stuck hno)
      fun _ _ _ ha _ hs => ha.step hno.1 hs).quiescent

/-- Two paced iterations come to the go-ahead with nothing out, and no run
from there has to wait for it. -/
theorem quiescentTeardown_twoTurns : ∃ c,
    Runs.Reach (step 2) (fun a l => Smooth a l ∧ Paced a l) boot c ∧ c.pc = .goAhead ∧
      c.ep.posted .rdmaWrite = 2 ∧ c.rdmaPending = [] ∧
      ¬ QuiescentFrom Healthy 2 .big 64 (List.replicate 64 0) fun _ => 0 := by
  obtain ⟨c, hrun, hpc, hpost⟩ : ∃ c, Runs.exec (step 2) (fun a l => Smooth a l ∧ Paced a l)
      boot (startup ⟨0, 0, 1⟩ ++ twoTurns.tail) = some c ∧
      c.pc = .goAhead ∧ c.ep.posted .rdmaWrite = 2 := ⟨_, rfl, rfl, by decide⟩
  have hreach := Runs.reach_of_exec hrun
  obtain ⟨hrdma, -, hiff⟩ := quiescentTeardown_iff 2 .big 64 (List.replicate 64 0) fun _ => 0
  exact ⟨c, hreach, hpc, hpost, (hrdma c hreach).goAhead hpc, fun hall => boot_nul 2 (hiff.mp hall)⟩

/-- The loop of the source: both halves of the teardown fail. -/
theorem not_quiescentTeardown_ten : ¬ QuiescentTeardown Healthy 10 ∧
    ∃ c, Runs.Reach (step 10) Healthy boot c ∧ c.pc = .goAhead ∧ c.rdmaPending ≠ [] := by
  obtain ⟨c, h, hpc, hpend⟩ := goAhead_reached .big 64 (boot_nul 10)
  exact ⟨fun hall => not_quiescentFrom _ _ h hpc (hall _ _ _ _ (by simp)), c, h, hpc,
    hpend (by omega)⟩

end ServerConfig

end MegaVM
