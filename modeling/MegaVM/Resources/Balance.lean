import MegaVM.Resources.Owner

/-!
# What each side holds at each point

While the set-up functions get what they do not check for, the ledger of
a side is a function of its program counter (`clientLive`, `serverLive`)
and the pointers to its objects are good (`Ptrs.Good`). One lemma for
each side says that a step of the main thread leads from the ledger of
one point to that of the next; the handlers leave it alone.
-/

namespace MegaVM

open TestState
open Ledger (Op)

/-! ## What each side holds while every set-up works -/

/-- What the client holds at each point. -/
def clientLive : ClientPc → List Kind
  | .freed => []
  | .resolveAddr | .bindWait | .bindTest | .setupQp | .destroyId => [.cmId, .context]
  | .setupBuffers | .freeQp => [.qp, .cq, .pd, .cmId, .context]
  | .postRecv | .connect | .connectWait | .connectTest | .testSet | .testFill | .testPost
  | .testWait | .disconnect | .freeBuffers =>
      [.startMap, .startBuf, .rdmaMap, .rdmaBuf, .dmaMr, .sendMap, .recvMap, .qp, .cq, .pd,
        .cmId, .context]

/-- What the server holds, next to the child ids. -/
def serverLive : ServerPc → List Kind
  | .freed => []
  | .bindAddr | .listen | .bindWait | .bindTest | .setupQp | .destroyChild
  | .destroyListener => [.cmId, .context]
  | .setupBuffers | .freeQp => [.qp, .cq, .pd, .cmId, .context]
  | .postRecv | .accept | .acceptWait | .acceptTest | .startWait | .readSet _ | .readPost _
  | .readWait _ | .writeSet _ | .writePost _ | .writeWait _ | .goAhead | .disconnect
  | .freeBuffers | .oops =>
      [.rdmaMap, .rdmaBuf, .dmaMr, .sendMap, .recvMap, .qp, .cq, .pd, .cmId, .context]

/-- The pointers to the objects `live` are good, and the registrations
that no function sets are `NULL`. -/
structure Ptrs.Good (p : Ptrs) (live : List Kind) : Prop where
  id : p.cmId = .obj
  unset : p.recvMr = .null ∧ p.sendMr = .null ∧ p.rdmaMr = .null ∧ p.startMr = .null
  qp : Kind.qp ∈ live → p.pd = .obj ∧ p.cq = .obj ∧ p.qp = .obj
  bufs : Kind.dmaMr ∈ live → p.dmaMr = .obj ∧ p.rdmaBuf = .obj
  start : Kind.startBuf ∈ live → p.startBuf = .obj

theorem run_used {p : Ptr} {k : Kind} {l : List Kind} (hp : p = .obj) (hk : k ∈ l) :
    (⟨l, 0⟩ : Ledger Kind).run (p.used k) = ⟨l, 0⟩ := by
  simp [hp, Ptr.used, Ledger.apply, hk]

/-- The calls of the client's `megaVM_setup_buffers` succeed. -/
def ClientBuffersOk (out : Outcomes) : Prop :=
  out.getDmaMr = none ∧ out.kmallocRdma = true ∧ out.kmallocStart = true

instance (out : Outcomes) : Decidable (ClientBuffersOk out) :=
  inferInstanceAs (Decidable (_ ∧ _ ∧ _))

section Main
variable {inp : MainIn} {len : Option Nat} {out : Outcomes} {p : Ptrs} {cb cb' : IbContext}

/-- A step of the client takes the ledger from one point to the next. -/
theorem clientEffect_run {ret : Int} {pc pc' : ClientPc} {call : Call}
    (h : ClientMove { inp with ret := ret } cb pc cb' pc' call)
    (hret : (clientEffect inp out p cb pc).ret = ret) (hp : p.Good (clientLive pc))
    (hok : pc = .setupBuffers → ClientBuffersOk out) :
    (⟨clientLive pc, 0⟩ : Ledger Kind).run (clientEffect inp out p cb pc).objs
        = ⟨clientLive pc', 0⟩ ∧
      (clientEffect inp out p cb pc).ptrs.Good (clientLive pc') := by
  have hid := hp.id
  cases h with
  | qpFailed hne =>
      rcases megaVMSetupQp_run (o := out) (l := [.cmId, .context]) hid (by decide) with
        ⟨hzero, -⟩ | ⟨-, ⟨pd, cq, hptrs⟩, hrun⟩
      · exact absurd (hret.symm.trans hzero) hne
      · refine ⟨hrun, ?_⟩
        show (megaVMSetupQp out p).ptrs.Good _
        rw [hptrs]
        exact ⟨hid, hp.unset, nofun, nofun, nofun⟩
  | qpBuilt hzero =>
      rcases megaVMSetupQp_run (o := out) (l := [.cmId, .context]) hid (by decide) with
        ⟨-, hptrs, hrun⟩ | ⟨hne, -⟩
      · refine ⟨hrun, ?_⟩
        show (megaVMSetupQp out p).ptrs.Good _
        rw [hptrs]
        exact ⟨hid, hp.unset, fun _ => ⟨rfl, rfl, rfl⟩, nofun, nofun⟩
      · exact absurd (hret.trans hzero) hne
  | buffersFailed hne =>
      obtain ⟨hmr, hrdma, hstart⟩ := hok rfl
      obtain ⟨hpd, -⟩ := hp.qp (by decide)
      exact absurd (hret.symm.trans
        (megaVMSetupBuffers_run hmr hrdma hstart hpd (l := [.pd]) (by decide)).1) hne
  | buffersReady =>
      obtain ⟨hmr, hrdma, hstart⟩ := hok rfl
      obtain ⟨hpd, hcq, hqp⟩ := hp.qp (by decide)
      obtain ⟨-, hptrs, hrun⟩ := megaVMSetupBuffers_run hmr hrdma hstart hpd
        (l := clientLive .setupBuffers) (by decide)
      refine ⟨hrun, ?_⟩
      show (megaVMSetupBuffers out p).ptrs.Good _
      rw [hptrs]
      exact ⟨hid, hp.unset, fun _ => ⟨hpd, hcq, hqp⟩, fun _ => ⟨rfl, rfl⟩, fun _ => rfl⟩
  | resolveFailed | resolving | connectFailed | connecting | disconnect =>
      exact ⟨run_used hid (by decide), hp⟩
  | recvFailed | recvPosted | testPost =>
      exact ⟨run_used (hp.qp (by decide)).2.2 (by decide), hp⟩
  -- the stores to `start_buf`, and the key of `dma_mr` for the message
  | testFill =>
      refine ⟨?_, hp⟩
      show Ledger.run _ (_ ++ _) = _
      rw [Ledger.run_append, run_used (hp.start (by decide)) (by decide)]
      exact run_used (hp.bufs (by decide)).1 (by decide)
  | freeBuffers =>
      obtain ⟨hpd, -⟩ := hp.qp (by decide)
      obtain ⟨hmr, hbuf⟩ := hp.bufs (by decide)
      exact ⟨clientFree_run hpd hmr hbuf (hp.start (by decide)) hp.unset (by decide),
        ⟨hid, hp.unset, fun _ => hp.qp (by decide), nofun, nofun⟩⟩
  | freeQp =>
      obtain ⟨hpd, hcq, hqp⟩ := hp.qp (by decide)
      exact ⟨freeQp_run hpd hcq hqp, ⟨hid, hp.unset, nofun, nofun, nofun⟩⟩
  | destroyId =>
      refine ⟨?_, ⟨hid, hp.unset, nofun, nofun, nofun⟩⟩
      show Ledger.run _ (p.cmId.released .cmId ++ _) = _
      rw [hid]
      rfl
  | bindWoken | notResolved | resolved | connectWoken | connectBroken | connected | testSet
  | testWoken => exact ⟨rfl, hp⟩

/-- The calls of the server's set-up functions succeed as far as the
functions rely on it. -/
def ServerQpOk (out : Outcomes) : Prop := out.allocPd = none ∧ out.createCq = none

def ServerBuffersOk (out : Outcomes) : Prop := out.getDmaMr = none ∧ out.kmallocRdma = true

instance (out : Outcomes) : Decidable (ServerQpOk out) := inferInstanceAs (Decidable (_ ∧ _))

instance (out : Outcomes) : Decidable (ServerBuffersOk out) := inferInstanceAs (Decidable (_ ∧ _))

/-- A step of the server likewise. -/
theorem serverEffect_run {N : Nat} {ret : Int} {pc pc' : ServerPc} {call : Call}
    (h : ServerMove N len { inp with ret := ret } cb pc cb' pc' call)
    (hret : (serverEffect inp out p cb pc).ret = ret) (hp : p.Good (serverLive pc))
    (hqpOk : pc = .setupQp → ServerQpOk out) (hbufOk : pc = .setupBuffers → ServerBuffersOk out) :
    (⟨serverLive pc, 0⟩ : Ledger Kind).run (serverEffect inp out p cb pc).objs
        = ⟨serverLive pc', 0⟩ ∧
      (serverEffect inp out p cb pc).ptrs.Good (serverLive pc') := by
  have hid := hp.id
  cases h with
  | qpFailed hne =>
      obtain ⟨hpd, hcq⟩ := hqpOk rfl
      rcases setupPdAndQp_run (p := p) (l := [.cmId, .context]) hpd hcq with
        ⟨hzero, -⟩ | ⟨-, hptrs, hrun⟩
      · exact absurd (hret.symm.trans hzero) hne
      · refine ⟨hrun, ?_⟩
        show (setupPdAndQp out p).ptrs.Good _
        rw [hptrs]
        exact ⟨hid, hp.unset, nofun, nofun, nofun⟩
  | qpBuilt hzero =>
      obtain ⟨hpd, hcq⟩ := hqpOk rfl
      rcases setupPdAndQp_run (p := p) (l := [.cmId, .context]) hpd hcq with
        ⟨-, hptrs, hrun⟩ | ⟨hne, -⟩
      · refine ⟨hrun, ?_⟩
        show (setupPdAndQp out p).ptrs.Good _
        rw [hptrs]
        exact ⟨hid, hp.unset, fun _ => ⟨rfl, rfl, rfl⟩, nofun, nofun⟩
      · exact absurd (hret.trans hzero) hne
  | buffersFailed hne =>
      obtain ⟨hmr, hbuf⟩ := hbufOk rfl
      obtain ⟨hpd, -⟩ := hp.qp (by decide)
      exact absurd (hret.symm.trans (setupBuffers_run hmr hbuf hpd (l := [.pd]) (by decide)).1) hne
  | buffersReady =>
      obtain ⟨hmr, hbuf⟩ := hbufOk rfl
      obtain ⟨hpd, hcq, hqp⟩ := hp.qp (by decide)
      obtain ⟨-, hptrs, hrun⟩ := setupBuffers_run hmr hbuf hpd (l := serverLive .setupBuffers)
        (by decide)
      refine ⟨hrun, ?_⟩
      show (setupBuffers out p).ptrs.Good _
      rw [hptrs]
      exact ⟨hid, hp.unset, fun _ => ⟨hpd, hcq, hqp⟩, fun _ => ⟨rfl, rfl⟩, nofun⟩
  | bindFailed | bound | listenFailed | listening => exact ⟨run_used hid (by decide), hp⟩
  | recvFailed | recvPosted | readPost | writePost | goAhead =>
      exact ⟨run_used (hp.qp (by simp [serverLive])).2.2 (by simp [serverLive]), hp⟩
  | readSet i => exact ⟨run_used (hp.bufs (by simp [serverLive])).1 (by simp [serverLive]), hp⟩
  -- `strlen` reads the buffer before the key of `dma_mr` is read
  | writeSet | ranOff =>
      obtain ⟨hmr, hbuf⟩ := hp.bufs (by simp [serverLive])
      refine ⟨?_, hp⟩
      show Ledger.run _ (_ ++ _) = _
      rw [Ledger.run_append, run_used hbuf (by simp [serverLive])]
      exact run_used hmr (by simp [serverLive])
  | freeBuffers =>
      obtain ⟨hpd, -⟩ := hp.qp (by decide)
      obtain ⟨hmr, hbuf⟩ := hp.bufs (by decide)
      obtain ⟨hrecv, hsend, hrdma, -⟩ := hp.unset
      exact ⟨serverFree_run hpd hmr hbuf ⟨hrecv, hsend, hrdma⟩ (by decide),
        ⟨hid, hp.unset, fun _ => hp.qp (by decide), nofun, nofun⟩⟩
  | freeQp =>
      obtain ⟨hpd, hcq, hqp⟩ := hp.qp (by decide)
      exact ⟨freeQp_run hpd hcq hqp, ⟨hid, hp.unset, nofun, nofun, nofun⟩⟩
  | destroyListener =>
      refine ⟨?_, ⟨hid, hp.unset, nofun, nofun, nofun⟩⟩
      show Ledger.run _ (p.cmId.released .cmId ++ _) = _
      rw [hid]
      rfl
  | bindWoken | noRequest | requested | accepting | acceptFailed | acceptWoken | acceptBroken
  | accepted | started | startedEmpty | readWoken | nextTurn | lastTurn | disconnect
  | destroyChild => exact ⟨rfl, hp⟩

end Main

end MegaVM
