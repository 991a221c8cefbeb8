import MegaVM.MainThread

/-!
# The server's main thread

`initialisation`, `megaVM_StartServer` and what they call, as a step
function over a program counter. A step is one statement that calls the
kernel or touches `context->state`; the set-up of the fields of one RDMA
work request is one step. `setup_pd_and_qp` and `setup_buffers` are one
step each here: what they acquire and release is the subject of
`MegaVM.Resources`.

The bound of the loop in `start_MegaVM_server` (10 in the source) is the
parameter `N`.
-/

namespace MegaVM

open TestState

/-- Where the main thread is. -/
inductive ServerPc
  /-- `bind_server`. -/
  | bindAddr | listen | bindWait | bindTest
  /-- `megaVM_StartServer`, steps 2 and 3 and the first `ib_post_recv`. -/
  | setupQp | setupBuffers | postRecv
  /-- `accept_connections`. -/
  | accept | acceptWait | acceptTest
  /-- `start_MegaVM_server`: the wait, iteration `i`, the go-ahead. -/
  | startWait
  | readSet (i : Nat) | readPost (i : Nat) | readWait (i : Nat)
  | writeSet (i : Nat) | writePost (i : Nat) | writeWait (i : Nat)
  | goAhead
  /-- The teardown of `megaVM_StartServer`: `rdma_disconnect`, `err2`,
  `err1`, `err0`. -/
  | disconnect | freeBuffers | freeQp | destroyChild
  /-- The end of `initialisation`. -/
  | destroyListener | freed
  /-- `strlen` ran off the mapped memory. -/
  | oops
  deriving DecidableEq, Repr

/-- `setup_wr`: the two blocks both modules have, and the scatter entry
of the RDMA work request. -/
def setupWr (cb : IbContext) (b : Bufs) : IbContext :=
  { setupSendRecv cb b with rdmaSgl := { cb.rdmaSgl with addr := b.rdmaDma } }

/-- The field assignments of `megaVM_rdma_read`. -/
def setRead (cb : IbContext) : IbContext :=
  { cb with
    rdmaSqWr := ⟨.rdmaRead, cb.remoteRkey, cb.remoteAddr⟩
    rdmaSgl := { cb.rdmaSgl with length := cb.remoteLen, lkey := cb.dmaMr.rkey } }

/-- The field assignments of `megaVM_rdma_write`; `len` is
`strlen(cb->rdma_buf)`. -/
def setWrite (cb : IbContext) (len : Nat) : IbContext :=
  { cb with
    rdmaSqWr := ⟨.rdmaWrite, cb.remoteRkey, cb.remoteAddr⟩
    rdmaSgl := { cb.rdmaSgl with
      length := BitVec.ofNat 32 (len + 1), lkey := cb.dmaMr.rkey } }

/-- The head of the loop of `start_MegaVM_server` at counter `i`. -/
def loopHead (N i : Nat) : ServerPc := if i < N then .readSet i else .goAhead

/-- One step of the main thread. `len` is the index of the first NUL in
memory from `rdma_buf` on, if there is one. -/
def serverMain (N : Nat) (len : Option Nat) (inp : MainIn) (cb : IbContext) :
    ServerPc → Option (IbContext × ServerPc × Call)
  | .bindAddr => some (cb, if inp.ret ≠ 0 then .destroyListener else .listen, .none)
  | .listen =>
      if inp.ret ≠ 0 then some (cb, .destroyListener, .none)
      else some (cb, .bindWait, .listen)
  | .bindWait => waitEvent (connectRequest ≤ cb.state) inp cb .bindTest
  | .bindTest =>
      some (cb, if cb.state ≠ connectRequest then .destroyListener else .setupQp, .none)
  | .setupQp =>
      if inp.ret ≠ 0 then some (cb, .destroyChild, .none)
      else some ({ cb with qp := cb.childCmId }, .setupBuffers, .createQp cb.childCmId)
  | .setupBuffers =>
      if inp.ret ≠ 0 then some (cb, .freeQp, .none)
      else some (setupWr cb inp.bufs, .postRecv, .none)
  | .postRecv =>
      if inp.ret ≠ 0 then some (cb, .freeBuffers, .none) else some (cb, .accept, .postRecv)
  | .accept =>
      if inp.ret ≠ 0 then some (cb, .freeBuffers, .none)
      else some (cb, .acceptWait, .accept cb.childCmId)
  | .acceptWait => waitEvent (connected ≤ cb.state) inp cb .acceptTest
  -- `accept_connections` tests for `ERROR` only
  | .acceptTest =>
      some (cb, if cb.state = error then .freeBuffers else .startWait, .none)
  | .startWait => waitEvent (rdmaReadAdv ≤ cb.state) inp cb (loopHead N 0)
  | .readSet i => some (setRead cb, .readPost i, .none)
  -- `ret` of `ib_post_send` is printed only, here and in the two other posts
  | .readPost i => some (cb, .readWait i, .postSend cb.rdmaSqWr cb.rdmaSgl)
  -- whatever has ended the wait, the function goes on
  | .readWait i => waitEvent (rdmaReadComplete ≤ cb.state) inp cb (.writeSet i)
  | .writeSet i =>
      match len with
      | some n => some (setWrite cb n, .writePost i, .none)
      | .none => some (cb, .oops, .none)
  | .writePost i => some (cb, .writeWait i, .postSend cb.rdmaSqWr cb.rdmaSgl)
  | .writeWait i => waitEvent (rdmaWriteComplete ≤ cb.state) inp cb (loopHead N (i + 1))
  | .goAhead => some (cb, .disconnect, .postSend cb.sqWr cb.sendSgl)
  | .disconnect => some (cb, .freeBuffers, .disconnect cb.childCmId)
  | .freeBuffers => some (cb, .freeQp, .none)
  | .freeQp => some (cb, .destroyChild, .destroyQp)
  -- `err0`, which a failed `bind_server` does not come to
  | .destroyChild => some (cb, .destroyListener, .destroyId cb.childCmId)
  | .destroyListener => some (cb, .freed, .destroyListener)
  | .freed => none
  | .oops => none

/-- The steps of the main thread, one constructor for each branch: what is
written, where the thread goes, which call it makes. -/
inductive ServerMove (N : Nat) (len : Option Nat) (inp : MainIn) (cb : IbContext) :
    ServerPc → IbContext → ServerPc → Call → Prop
  | bindFailed (hret : inp.ret ≠ 0) : ServerMove N len inp cb .bindAddr cb .destroyListener .none
  | bound (hret : inp.ret = 0) : ServerMove N len inp cb .bindAddr cb .listen .none
  | listenFailed (hret : inp.ret ≠ 0) : ServerMove N len inp cb .listen cb .destroyListener .none
  | listening (hret : inp.ret = 0) : ServerMove N len inp cb .listen cb .bindWait .listen
  | bindWoken (hgo : connectRequest ≤ cb.state ∨ inp.signal = true) :
      ServerMove N len inp cb .bindWait cb .bindTest .none
  | noRequest (hst : cb.state ≠ connectRequest) :
      ServerMove N len inp cb .bindTest cb .destroyListener .none
  | requested (hst : cb.state = connectRequest) :
      ServerMove N len inp cb .bindTest cb .setupQp .none
  | qpFailed (hret : inp.ret ≠ 0) : ServerMove N len inp cb .setupQp cb .destroyChild .none
  | qpBuilt (hret : inp.ret = 0) :
      ServerMove N len inp cb .setupQp { cb with qp := cb.childCmId } .setupBuffers
        (.createQp cb.childCmId)
  | buffersFailed (hret : inp.ret ≠ 0) : ServerMove N len inp cb .setupBuffers cb .freeQp .none
  | buffersReady (hret : inp.ret = 0) :
      ServerMove N len inp cb .setupBuffers (setupWr cb inp.bufs) .postRecv .none
  | recvFailed (hret : inp.ret ≠ 0) : ServerMove N len inp cb .postRecv cb .freeBuffers .none
  | recvPosted (hret : inp.ret = 0) : ServerMove N len inp cb .postRecv cb .accept .postRecv
  | acceptFailed (hret : inp.ret ≠ 0) : ServerMove N len inp cb .accept cb .freeBuffers .none
  | accepting (hret : inp.ret = 0) :
      ServerMove N len inp cb .accept cb .acceptWait (.accept cb.childCmId)
  | acceptWoken (hgo : connected ≤ cb.state ∨ inp.signal = true) :
      ServerMove N len inp cb .acceptWait cb .acceptTest .none
  | acceptBroken (hst : cb.state = error) :
      ServerMove N len inp cb .acceptTest cb .freeBuffers .none
  | accepted (hst : cb.state ≠ error) : ServerMove N len inp cb .acceptTest cb .startWait .none
  | started (hgo : rdmaReadAdv ≤ cb.state ∨ inp.signal = true) (hN : 0 < N) :
      ServerMove N len inp cb .startWait cb (.readSet 0) .none
  | startedEmpty (hgo : rdmaReadAdv ≤ cb.state ∨ inp.signal = true) (hN : N = 0) :
      ServerMove N len inp cb .startWait cb .goAhead .none
  | readSet (i : Nat) : ServerMove N len inp cb (.readSet i) (setRead cb) (.readPost i) .none
  | readPost (i : Nat) :
      ServerMove N len inp cb (.readPost i) cb (.readWait i) (.postSend cb.rdmaSqWr cb.rdmaSgl)
  | readWoken (i : Nat) (hgo : rdmaReadComplete ≤ cb.state ∨ inp.signal = true) :
      ServerMove N len inp cb (.readWait i) cb (.writeSet i) .none
  | writeSet (i n : Nat) (hlen : len = some n) :
      ServerMove N len inp cb (.writeSet i) (setWrite cb n) (.writePost i) .none
  | ranOff (i : Nat) (hlen : len = none) : ServerMove N len inp cb (.writeSet i) cb .oops .none
  | writePost (i : Nat) :
      ServerMove N len inp cb (.writePost i) cb (.writeWait i) (.postSend cb.rdmaSqWr cb.rdmaSgl)
  | nextTurn (i : Nat) (hgo : rdmaWriteComplete ≤ cb.state ∨ inp.signal = true) (hi : i + 1 < N) :
      ServerMove N len inp cb (.writeWait i) cb (.readSet (i + 1)) .none
  | lastTurn (i : Nat) (hgo : rdmaWriteComplete ≤ cb.state ∨ inp.signal = true) (hi : N ≤ i + 1) :
      ServerMove N len inp cb (.writeWait i) cb .goAhead .none
  | goAhead : ServerMove N len inp cb .goAhead cb .disconnect (.postSend cb.sqWr cb.sendSgl)
  | disconnect :
      ServerMove N len inp cb .disconnect cb .freeBuffers (.disconnect cb.childCmId)
  | freeBuffers : ServerMove N len inp cb .freeBuffers cb .freeQp .none
  | freeQp : ServerMove N len inp cb .freeQp cb .destroyChild .destroyQp
  | destroyChild :
      ServerMove N len inp cb .destroyChild cb .destroyListener (.destroyId cb.childCmId)
  | destroyListener : ServerMove N len inp cb .destroyListener cb .freed .destroyListener

/-- **The inversion of a step of the main thread.** -/
theorem serverMain_move {N : Nat} {len : Option Nat} {inp : MainIn} {cb cb' : IbContext}
    {pc pc' : ServerPc} {call : Call} (h : serverMain N len inp cb pc = some (cb', pc', call)) :
    ServerMove N len inp cb pc cb' pc' call := by
  cases pc with
  | bindAddr | listen | setupQp | setupBuffers | postRecv | accept =>
      simp only [serverMain] at h
      split at h <;> rename_i hret <;> cases h
      · constructor
        exact hret
      · constructor
        exact not_not.mp hret
  | bindTest =>
      simp only [serverMain] at h
      split at h <;> rename_i hst <;> cases h
      · exact .noRequest hst
      · exact .requested (not_not.mp hst)
  | acceptTest =>
      simp only [serverMain] at h
      split at h <;> rename_i hst <;> cases h
      · exact .acceptBroken hst
      · exact .accepted hst
  | bindWait | acceptWait | readWait i =>
      rw [serverMain, waitEvent_eq_some] at h
      obtain ⟨hgo, h⟩ := h
      cases h
      constructor
      exact hgo
  | startWait =>
      rw [serverMain, waitEvent_eq_some, loopHead] at h
      obtain ⟨hgo, h⟩ := h
      split at h <;> rename_i hN <;> cases h
      · exact .started hgo hN
      · exact .startedEmpty hgo (Nat.eq_zero_of_not_pos hN)
  | writeWait i =>
      rw [serverMain, waitEvent_eq_some, loopHead] at h
      obtain ⟨hgo, h⟩ := h
      split at h <;> rename_i hi <;> cases h
      · exact .nextTurn i hgo hi
      · exact .lastTurn i hgo (Nat.le_of_not_lt hi)
  | writeSet i =>
      simp only [serverMain] at h
      split at h <;> cases h
      · exact .writeSet i _ rfl
      · exact .ranOff i rfl
  | freed | oops => cases h
  | _ =>
      cases h
      constructor

theorem ServerMove.destroys {N : Nat} {len : Option Nat} {inp : MainIn} {cb cb' : IbContext}
    {pc pc' : ServerPc} {id : CmId} (h : ServerMove N len inp cb pc cb' pc' (.destroyId id)) :
    pc = .destroyChild := by
  cases h
  rfl

/-- No statement of the server's main thread writes `state`. -/
theorem serverMain_state {N : Nat} {len : Option Nat} {inp : MainIn} {cb cb' : IbContext}
    {pc pc' : ServerPc} {call : Call}
    (h : serverMain N len inp cb pc = some (cb', pc', call)) : cb'.state = cb.state := by
  cases serverMain_move h <;> rfl

end MegaVM
