import MegaVM.MainThread

/-!
# The client's main thread

`megaVM_doit`, `megaVM_run_client` and what they call, as a step function
over a program counter, with the same grain as the server's.

`megaVM_test_client` writes `RDMA_READ_ADV` itself, whatever `state` holds.
Its test for `ERROR` after `megaVM_format_send` only prints, so it is no
step.
-/

namespace MegaVM

open TestState

/-- Where the main thread is. -/
inductive ClientPc
  /-- `megaVM_bind_client`. -/
  | resolveAddr | bindWait | bindTest
  /-- `megaVM_setup_qp`, `megaVM_setup_buffers` and the first
  `ib_post_recv`. -/
  | setupQp | setupBuffers | postRecv
  /-- `megaVM_connect_client`. -/
  | connect | connectWait | connectTest
  /-- `megaVM_test_client`: the assignment to `state`, the text and
  `megaVM_format_send`, the post, the wait. -/
  | testSet | testFill | testPost | testWait
  /-- The teardown of `megaVM_run_client`: `rdma_disconnect`, `err2`,
  `err1`. -/
  | disconnect | freeBuffers | freeQp
  /-- The end of `megaVM_doit`. -/
  | destroyId | freed
  deriving DecidableEq, Repr

/-! ## The text in `start_buf` -/

/-- The format string of `sprintf`, which has no conversion. -/
def pingText : List Byte := "rdma-ping-1: ".toList.map fun c => BitVec.ofNat 8 c.toNat

/-- The stores of `sprintf`, the closing NUL included. -/
def sprintfWrites : List (Nat × Byte) :=
  (pingText ++ [0]).zipIdx.map fun p : Byte × Nat => (p.2, p.1)

/-- The stores of the loop from index `i` on, with `left` turns to go. -/
def fillLoop : Nat → Nat → Byte → List (Nat × Byte)
  | 0, _, _ => []
  | left + 1, i, c => (i, c) :: fillLoop left (i + 1) (if c + 1 > 122 then 65 else c + 1)

/-- All stores to `start_buf` in order: the text, the letters behind it,
the NUL in the last byte. -/
def startBufWrites (size : Nat) : List (Nat × Byte) :=
  sprintfWrites ++ fillLoop (size - pingText.length) pingText.length 65 ++ [(size - 1, 0)]

/-- `megaVM_format_send`. -/
def formatSend (cb : IbContext) (buf : BitVec 64) : IbContext :=
  { cb with sendBuf :=
      ⟨htonll cb.host buf, htonl cb.host cb.dmaMr.rkey, htonl cb.host (BitVec.ofNat 32 cb.size)⟩ }

/-- One step of the main thread. -/
def clientMain (inp : MainIn) (cb : IbContext) :
    ClientPc → Option (IbContext × ClientPc × Call)
  | .resolveAddr =>
      if inp.ret ≠ 0 then some (cb, .destroyId, .none) else some (cb, .bindWait, .resolveAddr)
  | .bindWait => waitEvent (routeResolved ≤ cb.state) inp cb .bindTest
  | .bindTest => some (cb, if cb.state ≠ routeResolved then .destroyId else .setupQp, .none)
  | .setupQp =>
      if inp.ret ≠ 0 then some (cb, .destroyId, .none)
      else some ({ cb with qp := cb.cmId }, .setupBuffers, .createQp cb.cmId)
  | .setupBuffers =>
      if inp.ret ≠ 0 then some (cb, .freeQp, .none)
      else some ({ setupSendRecv cb inp.bufs with startDmaAddr := inp.bufs.startDma },
        .postRecv, .none)
  | .postRecv =>
      if inp.ret ≠ 0 then some (cb, .freeBuffers, .none) else some (cb, .connect, .postRecv)
  | .connect =>
      if inp.ret ≠ 0 then some (cb, .freeBuffers, .none)
      else some (cb, .connectWait, .connect)
  | .connectWait => waitEvent (connected ≤ cb.state) inp cb .connectTest
  | .connectTest =>
      some (cb, if cb.state = error then .freeBuffers else .testSet, .none)
  | .testSet => some ({ cb with state := rdmaReadAdv }, .testFill, .none)
  | .testFill =>
      some (formatSend cb cb.startDmaAddr, .testPost, .fill (startBufWrites cb.size))
  | .testPost => some (cb, .testWait, .postSend cb.sqWr cb.sendSgl)
  -- the go-ahead of the server is what ends this wait
  | .testWait => waitEvent (rdmaWriteAdv ≤ cb.state) inp cb .disconnect
  | .disconnect => some (cb, .freeBuffers, .disconnect cb.cmId)
  | .freeBuffers => some (cb, .freeQp, .none)
  | .freeQp => some (cb, .destroyId, .destroyQp)
  | .destroyId => some (cb, .freed, .destroyId cb.cmId)
  | .freed => none

/-- The steps of the main thread, one constructor for each branch: what is
written, where the thread goes, which call it makes. -/
inductive ClientMove (inp : MainIn) (cb : IbContext) :
    ClientPc → IbContext → ClientPc → Call → Prop
  | resolveFailed (hret : inp.ret ≠ 0) : ClientMove inp cb .resolveAddr cb .destroyId .none
  | resolving (hret : inp.ret = 0) : ClientMove inp cb .resolveAddr cb .bindWait .resolveAddr
  | bindWoken (hgo : routeResolved ≤ cb.state ∨ inp.signal = true) :
      ClientMove inp cb .bindWait cb .bindTest .none
  | notResolved (hst : cb.state ≠ routeResolved) : ClientMove inp cb .bindTest cb .destroyId .none
  | resolved (hst : cb.state = routeResolved) : ClientMove inp cb .bindTest cb .setupQp .none
  | qpFailed (hret : inp.ret ≠ 0) : ClientMove inp cb .setupQp cb .destroyId .none
  | qpBuilt (hret : inp.ret = 0) :
      ClientMove inp cb .setupQp { cb with qp := cb.cmId } .setupBuffers (.createQp cb.cmId)
  | buffersFailed (hret : inp.ret ≠ 0) : ClientMove inp cb .setupBuffers cb .freeQp .none
  | buffersReady (hret : inp.ret = 0) :
      ClientMove inp cb .setupBuffers
        { setupSendRecv cb inp.bufs with startDmaAddr := inp.bufs.startDma } .postRecv .none
  | recvFailed (hret : inp.ret ≠ 0) : ClientMove inp cb .postRecv cb .freeBuffers .none
  | recvPosted (hret : inp.ret = 0) : ClientMove inp cb .postRecv cb .connect .postRecv
  | connectFailed (hret : inp.ret ≠ 0) : ClientMove inp cb .connect cb .freeBuffers .none
  | connecting (hret : inp.ret = 0) : ClientMove inp cb .connect cb .connectWait .connect
  | connectWoken (hgo : connected ≤ cb.state ∨ inp.signal = true) :
      ClientMove inp cb .connectWait cb .connectTest .none
  | connectBroken (hst : cb.state = error) : ClientMove inp cb .connectTest cb .freeBuffers .none
  | connected (hst : cb.state ≠ error) : ClientMove inp cb .connectTest cb .testSet .none
  | testSet : ClientMove inp cb .testSet { cb with state := rdmaReadAdv } .testFill .none
  | testFill :
      ClientMove inp cb .testFill (formatSend cb cb.startDmaAddr) .testPost
        (.fill (startBufWrites cb.size))
  | testPost : ClientMove inp cb .testPost cb .testWait (.postSend cb.sqWr cb.sendSgl)
  | testWoken (hgo : rdmaWriteAdv ≤ cb.state ∨ inp.signal = true) :
      ClientMove inp cb .testWait cb .disconnect .none
  | disconnect : ClientMove inp cb .disconnect cb .freeBuffers (.disconnect cb.cmId)
  | freeBuffers : ClientMove inp cb .freeBuffers cb .freeQp .none
  | freeQp : ClientMove inp cb .freeQp cb .destroyId .destroyQp
  | destroyId : ClientMove inp cb .destroyId cb .freed (.destroyId cb.cmId)

/-- **The inversion of a step of the main thread.** -/
theorem clientMain_move {inp : MainIn} {cb cb' : IbContext} {pc pc' : ClientPc} {call : Call}
    (h : clientMain inp cb pc = some (cb', pc', call)) : ClientMove inp cb pc cb' pc' call := by
  cases pc with
  | resolveAddr | setupQp | setupBuffers | postRecv | connect =>
      simp only [clientMain] at h
      split at h <;> rename_i hret <;> cases h
      · constructor
        exact hret
      · constructor
        exact not_not.mp hret
  | bindTest =>
      simp only [clientMain] at h
      split at h <;> rename_i hst <;> cases h
      · exact .notResolved hst
      · exact .resolved (not_not.mp hst)
  | connectTest =>
      simp only [clientMain] at h
      split at h <;> rename_i hst <;> cases h
      · exact .connectBroken hst
      · exact .connected hst
  | bindWait | connectWait | testWait =>
      rw [clientMain, waitEvent_eq_some] at h
      obtain ⟨hgo, h⟩ := h
      cases h
      constructor
      exact hgo
  | freed => cases h
  | _ =>
      cases h
      constructor

/-- The client's main thread writes `state` in one place. -/
theorem clientMain_state {inp : MainIn} {cb cb' : IbContext} {pc pc' : ClientPc} {call : Call}
    (h : clientMain inp cb pc = some (cb', pc', call)) :
    cb'.state = if pc = .testSet then rdmaReadAdv else cb.state := by
  cases clientMain_move h <;> rfl

end MegaVM
