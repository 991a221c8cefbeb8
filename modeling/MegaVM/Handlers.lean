import MegaVM.Verbs

/-!
# The control block and the two event handlers

`struct ib_context` as far as the modelled functions read or write it,
and the functions that run outside the main thread: the CM handler
`megaVM_cma_event_handler` (the same code in both modules),
`server_recv` and `client_recv`, and the body and the loop of
`megaVM_cq_event_handler`.

The two CQ handlers differ in one line, the test on `context->server`
that decides who handles a received message, so the loop takes that line
as a parameter (`RecvHook`); `serverHook` and `clientHook` are its two
instances.
-/

namespace MegaVM

open TestState

/-- `struct megaVM_stats`. -/
structure Stats where
  sendBytes : BitVec 64 := 0
  sendMsgs : BitVec 64 := 0
  recvBytes : BitVec 64 := 0
  recvMsgs : BitVec 64 := 0
  writeBytes : BitVec 64 := 0
  writeMsgs : BitVec 64 := 0
  readBytes : BitVec 64 := 0
  readMsgs : BitVec 64 := 0
  deriving DecidableEq, Repr

/-- `struct ib_context`. `host` is not a field of the source: it is the
byte order `ntohl` depends on. -/
structure IbContext where
  host : Endian
  server : Int
  qp : CmId
  dmaMr : Mr
  recvSgl : Sge
  recvBuf : RdmaInfo
  sqWr : SendWr
  sendSgl : Sge
  sendBuf : RdmaInfo
  rdmaSqWr : SendWr
  rdmaSgl : Sge
  remoteRkey : BitVec 32
  remoteAddr : BitVec 64
  remoteLen : BitVec 32
  state : TestState
  stats : Stats
  size : Nat
  startDmaAddr : BitVec 64
  cmId : CmId
  childCmId : CmId
  deriving DecidableEq, Repr

/-- The id `rdma_create_id` returns. -/
def createdId : CmId := 1

/-- The control block after `kzalloc` and the assignments and the
`rdma_create_id` that follow it in `initialisation` and `megaVM_doit`. -/
def IbContext.init (host : Endian) (server : Int) (size : Nat) : IbContext where
  host := host
  server := server
  qp := 0
  dmaMr := ⟨0, 0⟩
  recvSgl := ⟨0, 0, 0⟩
  recvBuf := ⟨0, 0, 0⟩
  sqWr := ⟨.send, 0, 0⟩
  sendSgl := ⟨0, 0, 0⟩
  sendBuf := ⟨0, 0, 0⟩
  rdmaSqWr := ⟨.send, 0, 0⟩
  rdmaSgl := ⟨0, 0, 0⟩
  remoteRkey := 0
  remoteAddr := 0
  remoteLen := 0
  state := idle
  stats := {}
  size := size
  startDmaAddr := 0
  cmId := createdId
  childCmId := 0

/-! ## `megaVM_cma_event_handler` -/

/-- `megaVM_cma_event_handler`: the new control block, and whether
`wake_up_interruptible` was called. `ret` is what `rdma_resolve_route`
returns in the `ADDR_RESOLVED` arm. -/
def cmaEventHandler (cb : IbContext) (event : CmEvent) (cmaId : CmId) (ret : Int) :
    IbContext × Bool :=
  match event with
  -- only a failing `rdma_resolve_route` wakes the main thread
  | .addrResolved => ({ cb with state := addrResolved }, ret != 0)
  | .routeResolved => ({ cb with state := routeResolved }, true)
  | .connectRequest => ({ cb with state := connectRequest, childCmId := cmaId }, true)
  | .established =>
      -- the server keeps its state and is woken all the same
      (if cb.server = 0 then { cb with state := connected } else cb, true)
  | .addrError | .routeError | .connectError | .unreachable | .rejected =>
      ({ cb with state := error }, true)
  | .disconnected => ({ cb with state := error }, true)
  | .deviceRemoval => (cb, false)
  | .other => (cb, true)

/-! ## `server_recv` and `client_recv` -/

/-- `server_recv`. -/
def serverRecv (cb : IbContext) (wc : Wc) : IbContext × Int :=
  if wc.byteLen ≠ sizeofRdmaInfo then (cb, -1)
  else
    ({ cb with
        remoteRkey := ntohl cb.host cb.recvBuf.rkey
        remoteAddr := ntohll cb.host cb.recvBuf.buf
        remoteLen := ntohl cb.host cb.recvBuf.size
        state :=
          if cb.state ≤ connected ∨ cb.state = rdmaWriteComplete then rdmaReadAdv
          else rdmaWriteAdv }, 0)

/-- `client_recv`. -/
def clientRecv (cb : IbContext) (wc : Wc) : IbContext × Int :=
  if wc.byteLen ≠ sizeofRdmaInfo then (cb, -1)
  else
    ({ cb with
        state := if cb.state = rdmaReadAdv then rdmaWriteAdv else rdmaWriteComplete }, 0)

/-! ## `megaVM_cq_event_handler` -/

/-- The line of the handler that differs between the modules: the new
control block and the value left in `ret`. -/
abbrev RecvHook := IbContext → Wc → IbContext × Int

/-- `ret = cb->server; if (ret) ret = server_recv(cb, &wc);` -/
def serverHook : RecvHook := fun cb wc =>
  if cb.server ≠ 0 then serverRecv cb wc else (cb, cb.server)

/-- `ret = context->server; if (!ret) ret = client_recv(context, &wc);` -/
def clientHook : RecvHook := fun cb wc =>
  if cb.server = 0 then clientRecv cb wc else (cb, cb.server)

/-- What one turn of the poll loop leaves behind. -/
structure Drained where
  cb : IbContext
  /-- `ib_post_recv` was called and returned 0. -/
  reposted : Bool
  /-- `goto error`: the loop is left and `state` is `ERROR`. -/
  stop : Bool
  deriving DecidableEq, Repr

/-- The `error:` label. -/
def gotoError (cb : IbContext) : Drained := ⟨{ cb with state := error }, false, true⟩

/-- The body of the `while` loop for one polled completion; `ret` is
what the re-posting `ib_post_recv` returns. -/
def drainOne (hook : RecvHook) (cb : IbContext) (wc : Wc) (ret : Int) : Drained :=
  match wc.status with
  | .wrFlushErr => ⟨cb, false, false⟩
  | .failure => gotoError cb
  | .success =>
      match wc.opcode with
      | .send =>
          ⟨{ cb with stats := { cb.stats with
              sendBytes := cb.stats.sendBytes + cb.sendSgl.length.setWidth 64
              sendMsgs := cb.stats.sendMsgs + 1 } }, false, false⟩
      | .rdmaWrite =>
          ⟨{ cb with
              stats := { cb.stats with
                writeBytes := cb.stats.writeBytes + cb.rdmaSgl.length.setWidth 64
                writeMsgs := cb.stats.writeMsgs + 1 }
              state := rdmaWriteComplete }, false, false⟩
      | .rdmaRead =>
          ⟨{ cb with
              stats := { cb.stats with
                readBytes := cb.stats.readBytes + cb.rdmaSgl.length.setWidth 64
                readMsgs := cb.stats.readMsgs + 1 }
              state := rdmaReadComplete }, false, false⟩
      | .recv =>
          -- counted before it is checked
          let counted := { cb with stats := { cb.stats with
            recvBytes := cb.stats.recvBytes + sizeofRdmaInfo.setWidth 64
            recvMsgs := cb.stats.recvMsgs + 1 } }
          let (cb', r) := hook counted wc
          if r ≠ 0 then gotoError cb'
          -- the message has been decoded, but no receive is posted for the next
          else if ret ≠ 0 then gotoError cb'
          else ⟨cb', true, false⟩
      | .other => gotoError cb

/-- One poll of a whole handler invocation: the completion, the bytes
the HCA left in `recv_buf`, and the result of the re-posting. -/
structure Poll where
  wc : Wc
  buf : RdmaInfo
  ret : Int
  deriving DecidableEq, Repr

/-- The poll loop over the completions `ib_poll_cq` delivers; `pollRet`
is what it returns after them (0, or an error). -/
def drainLoop (hook : RecvHook) (cb : IbContext) (pollRet : Int) :
    List Poll → IbContext
  | [] => if pollRet ≠ 0 then (gotoError cb).cb else cb
  | p :: ps =>
      let d := drainOne hook { cb with recvBuf := p.buf } p.wc p.ret
      if d.stop then d.cb else drainLoop hook d.cb pollRet ps

/-- `megaVM_cq_event_handler` as one step: in state `ERROR` it returns
at once, else it arms the queue and drains it. -/
def cqEventHandler (hook : RecvHook) (cb : IbContext) (polls : List Poll) (pollRet : Int) :
    IbContext :=
  if cb.state = error then cb else drainLoop hook cb pollRet polls

/-! ## What the handlers leave alone -/

/-- The fields only the main thread writes. -/
structure MainFields where
  host : Endian
  server : Int
  qp : CmId
  dmaMr : Mr
  recvSgl : Sge
  sqWr : SendWr
  sendSgl : Sge
  sendBuf : RdmaInfo
  rdmaSqWr : SendWr
  rdmaSgl : Sge
  size : Nat
  startDmaAddr : BitVec 64
  cmId : CmId
  deriving DecidableEq, Repr

def IbContext.mainFields (cb : IbContext) : MainFields :=
  ⟨cb.host, cb.server, cb.qp, cb.dmaMr, cb.recvSgl, cb.sqWr, cb.sendSgl, cb.sendBuf,
    cb.rdmaSqWr, cb.rdmaSgl, cb.size, cb.startDmaAddr, cb.cmId⟩

@[simp] theorem cmaEventHandler_mainFields (cb : IbContext) (e : CmEvent) (id : CmId)
    (ret : Int) : (cmaEventHandler cb e id ret).1.mainFields = cb.mainFields := by
  cases e <;> simp only [cmaEventHandler] <;> try rfl
  split <;> rfl

/-- A hook that keeps to the fields of the handlers. -/
def RecvHook.Framed (hook : RecvHook) : Prop :=
  ∀ cb wc, (hook cb wc).1.mainFields = cb.mainFields

theorem serverHook_framed : serverHook.Framed := by
  intro cb wc
  simp only [serverHook, serverRecv]
  split
  · split <;> rfl
  · rfl

theorem clientHook_framed : clientHook.Framed := by
  intro cb wc
  simp only [clientHook, clientRecv]
  split
  · split <;> rfl
  · rfl

theorem drainOne_mainFields {hook : RecvHook} (hf : hook.Framed) (cb : IbContext) (wc : Wc)
    (ret : Int) : (drainOne hook cb wc ret).cb.mainFields = cb.mainFields := by
  unfold drainOne
  split
  · rfl
  · rfl
  · split
    · rfl
    · rfl
    · rfl
    · -- RECV: only the hook could touch more
      dsimp only
      split
      · exact hf _ _
      · split
        · exact hf _ _
        · exact hf _ _
    · rfl

/-! ## What the handlers do to `state` -/

@[simp] theorem gotoError_state (cb : IbContext) : (gotoError cb).cb.state = error := rfl
@[simp] theorem gotoError_stop (cb : IbContext) : (gotoError cb).stop = true := rfl
@[simp] theorem gotoError_reposted (cb : IbContext) : (gotoError cb).reposted = false := rfl

theorem cmaEventHandler_error {cb : IbContext} {e : CmEvent} (h : e.isError = true)
    (id : CmId) (ret : Int) : (cmaEventHandler cb e id ret).1.state = error := by
  cases e <;> simp_all [CmEvent.isError, cmaEventHandler]

/-- An event that is no error leaves `state` alone or lowers it to at
most `CONNECTED`. -/
theorem cmaEventHandler_calm (cb : IbContext) {e : CmEvent} (h : e.isError = false)
    (id : CmId) (ret : Int) :
    (cmaEventHandler cb e id ret).1.state = cb.state ∨
      (cmaEventHandler cb e id ret).1.state ≤ connected := by
  cases e <;> simp_all [CmEvent.isError, cmaEventHandler]
  split <;> simp

/-- `server_recv` on a message of the right length. -/
theorem serverRecv_state {cb : IbContext} {wc : Wc} (h : wc.byteLen = sizeofRdmaInfo) :
    (serverRecv cb wc).1.state =
      if cb.state ≤ connected ∨ cb.state = rdmaWriteComplete then rdmaReadAdv
      else rdmaWriteAdv := by
  simp [serverRecv, h]

theorem serverRecv_ret {cb : IbContext} {wc : Wc} :
    (serverRecv cb wc).2 = if wc.byteLen = sizeofRdmaInfo then 0 else -1 := by
  by_cases h : wc.byteLen = sizeofRdmaInfo <;> simp [serverRecv, h]

/-! ## Inversion of a turn of the server's poll loop -/

/-- The counting of a received message. -/
def countRecv (cb : IbContext) : IbContext :=
  { cb with stats := { cb.stats with
      recvBytes := cb.stats.recvBytes + sizeofRdmaInfo.setWidth 64
      recvMsgs := cb.stats.recvMsgs + 1 } }

/-- The assignments of `server_recv` to a message of the right length. -/
def decode (cb : IbContext) : IbContext :=
  { cb with
    remoteRkey := ntohl cb.host cb.recvBuf.rkey
    remoteAddr := ntohll cb.host cb.recvBuf.buf
    remoteLen := ntohl cb.host cb.recvBuf.size
    state :=
      if cb.state ≤ connected ∨ cb.state = rdmaWriteComplete then rdmaReadAdv
      else rdmaWriteAdv }

/-- The turns of the server's poll loop, one constructor for each branch. -/
inductive ServerTurn (cb : IbContext) (wc : Wc) (ret : Int) : Drained → Prop
  | flushed (hst : wc.status = .wrFlushErr) : ServerTurn cb wc ret ⟨cb, false, false⟩
  | failed (hst : wc.status = .failure) : ServerTurn cb wc ret (gotoError cb)
  | sent (hst : wc.status = .success) (hop : wc.opcode = .send) :
      ServerTurn cb wc ret
        ⟨{ cb with stats := { cb.stats with
            sendBytes := cb.stats.sendBytes + cb.sendSgl.length.setWidth 64
            sendMsgs := cb.stats.sendMsgs + 1 } }, false, false⟩
  | written (hst : wc.status = .success) (hop : wc.opcode = .rdmaWrite) :
      ServerTurn cb wc ret
        ⟨{ cb with
            stats := { cb.stats with
              writeBytes := cb.stats.writeBytes + cb.rdmaSgl.length.setWidth 64
              writeMsgs := cb.stats.writeMsgs + 1 }
            state := rdmaWriteComplete }, false, false⟩
  | read (hst : wc.status = .success) (hop : wc.opcode = .rdmaRead) :
      ServerTurn cb wc ret
        ⟨{ cb with
            stats := { cb.stats with
              readBytes := cb.stats.readBytes + cb.rdmaSgl.length.setWidth 64
              readMsgs := cb.stats.readMsgs + 1 }
            state := rdmaReadComplete }, false, false⟩
  | malformed (hst : wc.status = .success) (hop : wc.opcode = .recv)
      (hlen : wc.byteLen ≠ sizeofRdmaInfo) : ServerTurn cb wc ret (gotoError (countRecv cb))
  | notReposted (hst : wc.status = .success) (hop : wc.opcode = .recv)
      (hlen : wc.byteLen = sizeofRdmaInfo) (hret : ret ≠ 0) :
      ServerTurn cb wc ret (gotoError (decode (countRecv cb)))
  | decoded (hst : wc.status = .success) (hop : wc.opcode = .recv)
      (hlen : wc.byteLen = sizeofRdmaInfo) (hret : ret = 0) :
      ServerTurn cb wc ret ⟨decode (countRecv cb), true, false⟩
  | unexpected (hst : wc.status = .success) (hop : wc.opcode = .other) :
      ServerTurn cb wc ret (gotoError cb)

/-- The arm of a received message, before the hook is known. -/
theorem drainOne_recv (hook : RecvHook) (cb : IbContext) {wc : Wc} (hst : wc.status = .success)
    (hop : wc.opcode = .recv) (ret : Int) :
    drainOne hook cb wc ret =
      if (hook (countRecv cb) wc).2 ≠ 0 then gotoError (hook (countRecv cb) wc).1
      else if ret ≠ 0 then gotoError (hook (countRecv cb) wc).1
      else ⟨(hook (countRecv cb) wc).1, true, false⟩ := by
  simp only [drainOne, hst, hop]
  rfl

theorem drainOne_turn {cb : IbContext} (hsrv : cb.server ≠ 0) (wc : Wc) (ret : Int) :
    ServerTurn cb wc ret (drainOne serverHook cb wc ret) := by
  -- only a received message goes through the hook
  by_cases hrecv : wc.status = .success ∧ wc.opcode = .recv
  · obtain ⟨hst, hop⟩ := hrecv
    have hhook : serverHook (countRecv cb) wc = serverRecv (countRecv cb) wc := if_pos hsrv
    rw [drainOne_recv serverHook cb hst hop, hhook]
    by_cases hlen : wc.byteLen = sizeofRdmaInfo
    · have hdecode : serverRecv (countRecv cb) wc = (decode (countRecv cb), 0) := by
        simp [serverRecv, hlen, decode]
      rw [hdecode, if_neg (not_not.mpr rfl)]
      by_cases hret : ret = 0
      · rw [if_neg (not_not.mpr hret)]
        exact .decoded hst hop hlen hret
      · rw [if_pos hret]
        exact .notReposted hst hop hlen hret
    · have hbad : serverRecv (countRecv cb) wc = (countRecv cb, -1) := by
        simp [serverRecv, hlen]
      rw [hbad, if_pos (show (-1 : Int) ≠ 0 by decide)]
      exact .malformed hst hop hlen
  · unfold drainOne
    cases hst : wc.status with
    | wrFlushErr => exact .flushed hst
    | failure => exact .failed hst
    | success =>
        cases hop : wc.opcode with
        | send => exact .sent hst hop
        | rdmaWrite => exact .written hst hop
        | rdmaRead => exact .read hst hop
        | other => exact .unexpected hst hop
        | recv => exact absurd ⟨hst, hop⟩ hrecv

end MegaVM
