import MegaVM.Lib.Ledger
import MegaVM.Verbs

/-!
# Set-up and tear-down of the resources

`setup_pd_and_qp`, `setup_buffers` of the server, `megaVM_setup_qp`,
`megaVM_setup_buffers` of the client, and the functions that free what
they set up, each as the value it returns, the pointers it leaves in the
context, and the operations on objects it makes, in order.

The kernel reports the failure of `ib_alloc_pd`, `ib_create_cq` and
`ib_get_dma_mr` by an `ERR_PTR`, which the client's `megaVM_setup_qp`
tests with `IS_ERR` and all other functions test against `NULL`.
-/

namespace MegaVM

open Ledger (Op)

/-- The objects of one side, next to the cm ids its peer opens. -/
inductive Kind
  | context | cmId | pd | cq | qp
  | dmaMr | recvMr | sendMr | rdmaMr | startMr
  /-- The DMA mappings of `recv_buf`, `send_buf`, `rdma_buf`, `start_buf`. -/
  | recvMap | sendMap | rdmaMap | startMap
  | rdmaBuf | startBuf
  deriving DecidableEq, Repr

/-- A pointer field of the context: `NULL`, an `ERR_PTR`, or the object. -/
inductive Ptr
  | null
  /-- The error number is `-(code + 1)`. -/
  | err (code : Fin 4095)
  | obj
  deriving DecidableEq, Repr

namespace Ptr

def isErr : Ptr → Bool
  | .err _ => true
  | _ => false

/-- `PTR_ERR`. -/
def errno : Ptr → Int
  | .err code => -(code.val + 1 : Int)
  | _ => 0

/-- The call that returned this pointer acquired the object, or failed. -/
def acquired (k : Kind) : Ptr → List (Op Kind)
  | .obj => [.acquire k]
  | _ => []

def used (k : Kind) : Ptr → List (Op Kind)
  | .obj => [.use k]
  | _ => [.wild]

def released (k : Kind) : Ptr → List (Op Kind)
  | .obj => [.release k]
  | _ => [.wild]

/-- `if (p && !IS_ERR(p)) release(p)`. -/
def releasedIfOk (k : Kind) (p : Ptr) : List (Op Kind) :=
  if p ≠ .null ∧ p.isErr = false then p.released k else []

/-- `if (p) release(p)`. -/
def releasedIfSet (k : Kind) (p : Ptr) : List (Op Kind) :=
  if p ≠ .null then p.released k else []

variable {p : Ptr} {k k' : Kind}

@[simp] theorem release_not_mem_used : .release k' ∉ p.used k := by
  cases p <;> simp [used]

/-- A release releases what it names. -/
@[simp] theorem release_not_mem_releasedIfOk (h : k' ≠ k) : .release k' ∉ p.releasedIfOk k := by
  cases p <;> simp [releasedIfOk, released, isErr, h]

@[simp] theorem release_not_mem_releasedIfSet (h : k' ≠ k) :
    .release k' ∉ p.releasedIfSet k := by
  cases p <;> simp [releasedIfSet, released, h]

@[simp] theorem release_not_mem_acquired : .release k' ∉ p.acquired k := by
  cases p <;> simp [acquired]

end Ptr

/-- The pointer fields of the context; `kzalloc` leaves them `NULL`. -/
structure Ptrs where
  cmId : Ptr
  pd : Ptr
  cq : Ptr
  qp : Ptr
  dmaMr : Ptr
  recvMr : Ptr
  sendMr : Ptr
  rdmaMr : Ptr
  startMr : Ptr
  rdmaBuf : Ptr
  startBuf : Ptr
  deriving DecidableEq, Repr

def Ptrs.init (cmId : Ptr) : Ptrs :=
  ⟨cmId, .null, .null, .null, .null, .null, .null, .null, .null, .null, .null⟩

/-- The result of a call that fails with an `ERR_PTR`. -/
abbrev PtrResult := Option (Fin 4095)

def PtrResult.ptr : PtrResult → Ptr
  | none => .obj
  | some code => .err code

/-- The outcomes of the calls of a set-up function; `none` is success. -/
structure Outcomes where
  allocPd : PtrResult
  createCq : PtrResult
  reqNotify : Int
  createQp : Int
  getDmaMr : PtrResult
  /-- The two calls of `kmalloc` succeed. -/
  kmallocRdma : Bool
  kmallocStart : Bool
  /-- What the uninitialised `ret` of `setup_pd_and_qp` holds. -/
  garbage : Int
  deriving DecidableEq, Repr

def Outcomes.ok : Outcomes := ⟨none, none, 0, 0, none, true, true, 0⟩

/-- What `kmalloc` returns. -/
def kmalloc (ok : Bool) : Ptr := if ok then .obj else .null

/-- The return value, the pointers left behind and the operations of a
function. -/
structure Done where
  ret : Int
  ptrs : Ptrs
  ops : List (Op Kind)
  deriving DecidableEq, Repr

/-! ## Queue pair -/

/-- The labels `err2` and `err1` of both functions. -/
def err1 (p : Ptrs) : List (Op Kind) := p.pd.released .pd

def err2 (p : Ptrs) : List (Op Kind) := p.cq.released .cq ++ err1 p

/-- `create_qp` and `megaVM_create_qp`, the last part of both functions,
after the operations `ops`. -/
def createQp (o : Outcomes) (p : Ptrs) (ops : List (Op Kind)) : Done :=
  let uses := ops ++ p.pd.used .pd ++ p.cq.used .cq
  if o.createQp ≠ 0 then ⟨o.createQp, p, uses ++ err2 p⟩
  else ⟨0, { p with qp := .obj }, uses ++ [.acquire .qp]⟩

/-- `ib_req_notify_cq` and what follows it, in both functions; `id` is
what `rdma_create_qp` does with the cm id. -/
def notifyAndCreateQp (o : Outcomes) (p : Ptrs) (ops id : List (Op Kind)) : Done :=
  let uses := ops ++ p.cq.used .cq
  if o.reqNotify ≠ 0 then ⟨o.reqNotify, p, uses ++ err2 p⟩
  else createQp o p (uses ++ id)

/-- `setup_pd_and_qp` for a child id that is not `NULL`; what it does
with that id is not recorded here. -/
def setupPdAndQp (o : Outcomes) (p : Ptrs) : Done :=
  let p := { p with pd := o.allocPd.ptr }
  let ops := p.pd.acquired .pd
  -- `ib_alloc_pd` and `ib_create_cq` return an `ERR_PTR`, for which `NULL` is tested
  if p.pd = .null then ⟨-1, p, ops⟩
  else
    let p := { p with cq := o.createCq.ptr }
    let ops := ops ++ p.cq.acquired .cq
    if p.cq = .null then ⟨o.garbage, p, ops ++ err1 p⟩
    else notifyAndCreateQp o p ops []

/-- `megaVM_setup_qp`. -/
def megaVMSetupQp (o : Outcomes) (p : Ptrs) : Done :=
  let p := { p with pd := o.allocPd.ptr }
  let ops := p.cmId.used .cmId ++ p.pd.acquired .pd
  if p.pd.isErr then ⟨p.pd.errno, p, ops⟩
  else
    let p := { p with cq := o.createCq.ptr }
    let ops := ops ++ p.cmId.used .cmId ++ p.cq.acquired .cq
    if p.cq.isErr then ⟨p.cq.errno, p, ops ++ err1 p⟩
    else notifyAndCreateQp o p ops (p.cmId.used .cmId)

/-- `megaVM_free_qp`, the same in both modules. -/
def megaVMFreeQp (p : Ptrs) : List (Op Kind) :=
  p.qp.released .qp ++ p.cq.released .cq ++ p.pd.released .pd

/-! ## Buffers -/

/-- `dma_map_single` on the device of the protection domain. -/
def dmaMap (p : Ptrs) (k : Kind) : List (Op Kind) := p.pd.used .pd ++ [.acquire k]

def dmaUnmap (p : Ptrs) (k : Kind) : List (Op Kind) := p.pd.used .pd ++ [.release k]

/-- What both label blocks `bail` release first. -/
def bailMrs (p : Ptrs) : List (Op Kind) :=
  p.rdmaMr.releasedIfOk .rdmaMr ++ p.dmaMr.releasedIfOk .dmaMr ++
    p.recvMr.releasedIfOk .recvMr ++ p.sendMr.releasedIfOk .sendMr

/-- `setup_buffers`: it fails at `bail`, and its `setup_wr` reads the key
of `dma_mr` twice. -/
def setupBuffers (o : Outcomes) (p : Ptrs) : Done :=
  let bail (p : Ptrs) (ops : List (Op Kind)) : Done :=
    -- `bail` unmaps nothing
    ⟨-1, p, ops ++ bailMrs p ++ p.rdmaBuf.releasedIfSet .rdmaBuf⟩
  let p := { p with dmaMr := o.getDmaMr.ptr }
  let ops := dmaMap p .recvMap ++ dmaMap p .sendMap ++ p.pd.used .pd ++ p.dmaMr.acquired .dmaMr
  if p.dmaMr = .null then bail p ops
  else
    let p := { p with rdmaBuf := kmalloc o.kmallocRdma }
    let ops := ops ++ p.rdmaBuf.acquired .rdmaBuf
    if p.rdmaBuf = .null then bail p ops
    else
      ⟨0, p, ops ++ dmaMap p .rdmaMap ++ p.dmaMr.used .dmaMr ++ p.dmaMr.used .dmaMr⟩

/-- `megaVM_setup_buffers` with `mem = DMA`. -/
def megaVMSetupBuffers (o : Outcomes) (p : Ptrs) : Done :=
  let bail (ret : Int) (p : Ptrs) (ops : List (Op Kind)) : Done :=
    ⟨ret, p, ops ++ bailMrs p ++ p.rdmaBuf.releasedIfSet .rdmaBuf ++
      p.startBuf.releasedIfSet .startBuf⟩
  let p := { p with dmaMr := o.getDmaMr.ptr }
  let ops := dmaMap p .recvMap ++ dmaMap p .sendMap ++ p.pd.used .pd ++ p.dmaMr.acquired .dmaMr
  if p.dmaMr = .null then bail (-1) p ops
  else
    let p := { p with rdmaBuf := kmalloc o.kmallocRdma }
    let ops := ops ++ p.rdmaBuf.acquired .rdmaBuf
    if p.rdmaBuf = .null then bail (-1) p ops
    else
      let p := { p with startBuf := kmalloc o.kmallocStart }
      let ops := ops ++ dmaMap p .rdmaMap ++ p.startBuf.acquired .startBuf
      if p.startBuf = .null then bail (-12) p ops
      else
        ⟨0, p, ops ++ dmaMap p .startMap ++ p.dmaMr.used .dmaMr ++ p.dmaMr.used .dmaMr⟩

/-- What both versions of `megaVM_free_buffers` do: the registrations,
three mappings, `rdma_buf`. -/
def freeBuffers (p : Ptrs) (mrs : List (Op Kind)) : List (Op Kind) :=
  p.dmaMr.releasedIfSet .dmaMr ++ p.sendMr.releasedIfSet .sendMr ++
    p.recvMr.releasedIfSet .recvMr ++ p.rdmaMr.releasedIfSet .rdmaMr ++ mrs ++
    dmaUnmap p .recvMap ++ dmaUnmap p .sendMap ++ dmaUnmap p .rdmaMap ++
    p.rdmaBuf.releasedIfSet .rdmaBuf

/-- The server's `megaVM_free_buffers`. -/
def serverFreeBuffers (p : Ptrs) : List (Op Kind) := freeBuffers p []

/-- The client's, which also knows `start_mr` and `start_buf`. -/
def clientFreeBuffers (p : Ptrs) : List (Op Kind) :=
  freeBuffers p (p.startMr.releasedIfSet .startMr) ++
    if p.startBuf ≠ .null then dmaUnmap p .startMap ++ p.startBuf.released .startBuf else []

/-! ## What the functions do -/

section Specs
variable {o : Outcomes} {p : Ptrs} {l : List Kind}

/-- With a protection domain and a completion queue, both functions build
the queue pair or leave nothing. -/
theorem notifyAndCreateQp_run (ops id : List (Op Kind)) (hpd : p.pd = .obj) (hcq : p.cq = .obj)
    (hops : (⟨l, 0⟩ : Ledger Kind).run ops = ⟨.cq :: .pd :: l, 0⟩)
    (hid : (⟨.cq :: .pd :: l, 0⟩ : Ledger Kind).run id = ⟨.cq :: .pd :: l, 0⟩) :
    let d := notifyAndCreateQp o p ops id
    (d.ret = 0 ∧ d.ptrs = { p with qp := .obj } ∧
      (⟨l, 0⟩ : Ledger Kind).run d.ops = ⟨.qp :: .cq :: .pd :: l, 0⟩) ∨
    (d.ret ≠ 0 ∧ d.ptrs = p ∧ (⟨l, 0⟩ : Ledger Kind).run d.ops = ⟨l, 0⟩) := by
  intro d
  -- `ib_req_notify_cq` and `rdma_create_qp` fail with everything given back
  by_cases hnotify : o.reqNotify = 0
  · by_cases hqp : o.createQp = 0
    · have hd : d = ⟨0, { p with qp := .obj },
          ops ++ p.cq.used .cq ++ id ++ p.pd.used .pd ++ p.cq.used .cq ++ [.acquire .qp]⟩ := by
        simp [d, notifyAndCreateQp, createQp, hnotify, hqp]
      refine .inl ⟨by rw [hd], by rw [hd], ?_⟩
      rw [hd]
      simp [Ledger.run_append, hops, hid, hpd, hcq, Ptr.used, Ledger.apply]
    · have hd : d = ⟨o.createQp, p,
          ops ++ p.cq.used .cq ++ id ++ p.pd.used .pd ++ p.cq.used .cq ++ err2 p⟩ := by
        simp [d, notifyAndCreateQp, createQp, hnotify, hqp]
      refine .inr ⟨by rw [hd]; exact hqp, by rw [hd], ?_⟩
      rw [hd]
      simp [Ledger.run_append, hops, hid, hpd, hcq, Ptr.used, Ptr.released, err2, err1,
        Ledger.apply]
  · have hd : d = ⟨o.reqNotify, p, ops ++ p.cq.used .cq ++ err2 p⟩ := by
      simp [d, notifyAndCreateQp, hnotify]
    refine .inr ⟨by rw [hd]; exact hnotify, by rw [hd], ?_⟩
    rw [hd]
    simp [Ledger.run_append, hops, hpd, hcq, Ptr.used, Ptr.released, err2, err1, Ledger.apply]

/-- The server's function when neither of its two tests is needed. -/
theorem setupPdAndQp_run (hpd : o.allocPd = none) (hcq : o.createCq = none) :
    let d := setupPdAndQp o p
    (d.ret = 0 ∧ d.ptrs = { p with pd := .obj, cq := .obj, qp := .obj } ∧
      (⟨l, 0⟩ : Ledger Kind).run d.ops = ⟨.qp :: .cq :: .pd :: l, 0⟩) ∨
    (d.ret ≠ 0 ∧ d.ptrs = { p with pd := .obj, cq := .obj } ∧
      (⟨l, 0⟩ : Ledger Kind).run d.ops = ⟨l, 0⟩) := by
  have hd : setupPdAndQp o p = notifyAndCreateQp o { p with pd := .obj, cq := .obj }
      [.acquire .pd, .acquire .cq] [] := by
    simp [setupPdAndQp, hpd, hcq, PtrResult.ptr, Ptr.acquired]
  rw [hd]
  exact notifyAndCreateQp_run _ _ rfl rfl rfl rfl

/-- An `ERR_PTR` from `ib_alloc_pd` or `ib_create_cq` is used. -/
theorem setupPdAndQp_wild (h : o.allocPd ≠ none ∨ o.createCq ≠ none) :
    .wild ∈ (setupPdAndQp o p).ops := by
  cases hcq : o.createCq with
  | some code =>
      by_cases hnotify : o.reqNotify = 0 <;> by_cases hqp : o.createQp = 0 <;>
        cases hpd : o.allocPd <;>
        simp [setupPdAndQp, hcq, hpd, PtrResult.ptr, notifyAndCreateQp, createQp, hnotify, hqp,
          Ptr.used]
  | none =>
      obtain ⟨code, hpd⟩ := Option.ne_none_iff_exists'.mp (h.resolve_right (by simp [hcq]))
      by_cases hnotify : o.reqNotify = 0 <;> by_cases hqp : o.createQp = 0 <;>
        simp [setupPdAndQp, hcq, hpd, PtrResult.ptr, notifyAndCreateQp, createQp, hnotify, hqp,
          Ptr.used, err1, err2, Ptr.released]

/-- The client's function, whatever the calls return. -/
theorem megaVMSetupQp_run (hid : p.cmId = .obj) (hl : Kind.cmId ∈ l) :
    let d := megaVMSetupQp o p
    (d.ret = 0 ∧ d.ptrs = { p with pd := .obj, cq := .obj, qp := .obj } ∧
      (⟨l, 0⟩ : Ledger Kind).run d.ops = ⟨.qp :: .cq :: .pd :: l, 0⟩) ∨
    (d.ret ≠ 0 ∧ (∃ pd cq, d.ptrs = { p with pd := pd, cq := cq }) ∧
      (⟨l, 0⟩ : Ledger Kind).run d.ops = ⟨l, 0⟩) := by
  cases hpd : o.allocPd with
  | some code =>
      refine .inr ⟨?_, ⟨.err code, p.cq, ?_⟩, ?_⟩
      · simp [megaVMSetupQp, hpd, PtrResult.ptr, Ptr.isErr, Ptr.errno]
        omega
      · simp [megaVMSetupQp, hpd, PtrResult.ptr, Ptr.isErr]
      · simp [megaVMSetupQp, hpd, PtrResult.ptr, Ptr.isErr, Ptr.used, hid, Ptr.acquired,
          Ledger.apply, hl]
  | none =>
      cases hcq : o.createCq with
      | some code =>
          refine .inr ⟨?_, ⟨.obj, .err code, ?_⟩, ?_⟩
          · simp [megaVMSetupQp, hpd, hcq, PtrResult.ptr, Ptr.isErr, Ptr.errno]
            omega
          · simp [megaVMSetupQp, hpd, hcq, PtrResult.ptr, Ptr.isErr]
          · simp [megaVMSetupQp, hpd, hcq, PtrResult.ptr, Ptr.isErr, Ptr.used, hid, Ptr.acquired,
              err1, Ptr.released, Ledger.apply, hl]
      | none =>
          have hd : megaVMSetupQp o p = notifyAndCreateQp o { p with pd := .obj, cq := .obj }
              [.use .cmId, .acquire .pd, .use .cmId, .acquire .cq] [.use .cmId] := by
            simp [megaVMSetupQp, hpd, hcq, hid, PtrResult.ptr, Ptr.isErr, Ptr.acquired, Ptr.used]
          rw [hd]
          rcases notifyAndCreateQp_run (o := o) (p := { p with pd := .obj, cq := .obj }) (l := l)
            [.use .cmId, .acquire .pd, .use .cmId, .acquire .cq] [.use .cmId] rfl rfl
            (by simp [Ledger.apply, hl]) (by simp [Ledger.apply, hl]) with
            ⟨hret, hptrs, hrun⟩ | ⟨hret, hptrs, hrun⟩
          · exact .inl ⟨hret, hptrs, hrun⟩
          · exact .inr ⟨hret, ⟨_, _, hptrs⟩, hrun⟩

/-- The server's buffers, when both calls succeed. -/
theorem setupBuffers_run (hmr : o.getDmaMr = none) (hbuf : o.kmallocRdma = true)
    (hpd : p.pd = .obj) (hl : Kind.pd ∈ l) :
    let d := setupBuffers o p
    d.ret = 0 ∧ d.ptrs = { p with dmaMr := .obj, rdmaBuf := .obj } ∧
      (⟨l, 0⟩ : Ledger Kind).run d.ops =
        ⟨.rdmaMap :: .rdmaBuf :: .dmaMr :: .sendMap :: .recvMap :: l, 0⟩ := by
  simp [setupBuffers, hmr, hbuf, hpd, kmalloc, PtrResult.ptr, dmaMap, Ptr.used, Ptr.acquired,
    Ledger.apply, hl]

theorem release_not_mem_bailMrs : .release .recvMap ∉ bailMrs p := by
  simp [bailMrs]

/-- Otherwise an `ERR_PTR` is used, or the function fails and keeps the
mapping of `recv_buf`. -/
theorem setupBuffers_fails (h : o.getDmaMr ≠ none ∨ o.kmallocRdma = false) :
    let d := setupBuffers o p
    .wild ∈ d.ops ∨
      (d.ret ≠ 0 ∧ .acquire .recvMap ∈ d.ops ∧ .release .recvMap ∉ d.ops) := by
  cases hbuf : o.kmallocRdma with
  | false =>
      refine .inr ?_
      cases hmr : o.getDmaMr <;>
        simp [setupBuffers, hmr, hbuf, kmalloc, PtrResult.ptr, dmaMap, release_not_mem_bailMrs]
  | true =>
      obtain ⟨code, hmr⟩ := Option.ne_none_iff_exists'.mp (h.resolve_right (by simp [hbuf]))
      refine .inl ?_
      simp [setupBuffers, hmr, hbuf, kmalloc, PtrResult.ptr, Ptr.used]

/-- The client's buffers, when all three calls succeed. -/
theorem megaVMSetupBuffers_run (hmr : o.getDmaMr = none) (hrdma : o.kmallocRdma = true)
    (hstart : o.kmallocStart = true) (hpd : p.pd = .obj) (hl : Kind.pd ∈ l) :
    let d := megaVMSetupBuffers o p
    d.ret = 0 ∧ d.ptrs = { p with dmaMr := .obj, rdmaBuf := .obj, startBuf := .obj } ∧
      (⟨l, 0⟩ : Ledger Kind).run d.ops =
        ⟨.startMap :: .startBuf :: .rdmaMap :: .rdmaBuf :: .dmaMr :: .sendMap :: .recvMap :: l,
          0⟩ := by
  simp [megaVMSetupBuffers, hmr, hrdma, hstart, hpd, kmalloc, PtrResult.ptr, dmaMap, Ptr.used,
    Ptr.acquired, Ledger.apply, hl]

theorem megaVMSetupBuffers_fails
    (h : o.getDmaMr ≠ none ∨ o.kmallocRdma = false ∨ o.kmallocStart = false) :
    let d := megaVMSetupBuffers o p
    .wild ∈ d.ops ∨
      (d.ret ≠ 0 ∧ .acquire .recvMap ∈ d.ops ∧ .release .recvMap ∉ d.ops) := by
  by_cases hok : o.kmallocRdma = true ∧ o.kmallocStart = true
  · obtain ⟨hrdma, hstart⟩ := hok
    obtain ⟨code, hmr⟩ := Option.ne_none_iff_exists'.mp (h.resolve_right (by simp [hrdma, hstart]))
    refine .inl ?_
    simp [megaVMSetupBuffers, hmr, hrdma, hstart, kmalloc, PtrResult.ptr, Ptr.used]
  · refine .inr ?_
    cases hrdma : o.kmallocRdma with
    | false =>
        cases hmr : o.getDmaMr <;>
          simp [megaVMSetupBuffers, hmr, hrdma, kmalloc, PtrResult.ptr, dmaMap,
            release_not_mem_bailMrs]
    | true =>
        have hstart : o.kmallocStart = false := by simpa [hrdma] using hok
        cases hmr : o.getDmaMr <;>
          simp [megaVMSetupBuffers, hmr, hrdma, hstart, kmalloc, PtrResult.ptr, dmaMap,
            release_not_mem_bailMrs]

/-- Both versions of `megaVM_free_buffers`, on what the set-up built. -/
theorem serverFree_run (hpd : p.pd = .obj) (hmr : p.dmaMr = .obj) (hbuf : p.rdmaBuf = .obj)
    (hunset : p.recvMr = .null ∧ p.sendMr = .null ∧ p.rdmaMr = .null) (hl : Kind.pd ∈ l) :
    (⟨.rdmaMap :: .rdmaBuf :: .dmaMr :: .sendMap :: .recvMap :: l, 0⟩ : Ledger Kind).run
      (serverFreeBuffers p) = ⟨l, 0⟩ := by
  obtain ⟨hrecv, hsend, hrdma⟩ := hunset
  simp [serverFreeBuffers, freeBuffers, hmr, hpd, hbuf, hrecv, hsend, hrdma, Ptr.releasedIfSet,
    Ptr.released, dmaUnmap, Ptr.used, Ledger.apply, hl]

theorem clientFree_run (hpd : p.pd = .obj) (hmr : p.dmaMr = .obj) (hbuf : p.rdmaBuf = .obj)
    (hstart : p.startBuf = .obj)
    (hunset : p.recvMr = .null ∧ p.sendMr = .null ∧ p.rdmaMr = .null ∧ p.startMr = .null)
    (hl : Kind.pd ∈ l) :
    (⟨.startMap :: .startBuf :: .rdmaMap :: .rdmaBuf :: .dmaMr :: .sendMap :: .recvMap :: l, 0⟩ :
      Ledger Kind).run (clientFreeBuffers p) = ⟨l, 0⟩ := by
  obtain ⟨hrecv, hsend, hrdma, hstartMr⟩ := hunset
  simp [clientFreeBuffers, freeBuffers, hmr, hpd, hbuf, hrecv, hsend, hrdma, hstart, hstartMr,
    Ptr.releasedIfSet, Ptr.released, dmaUnmap, Ptr.used, Ledger.apply, hl]

theorem freeQp_run (hpd : p.pd = .obj) (hcq : p.cq = .obj) (hqp : p.qp = .obj) :
    (⟨.qp :: .cq :: .pd :: l, 0⟩ : Ledger Kind).run (megaVMFreeQp p) = ⟨l, 0⟩ := by
  simp [megaVMFreeQp, hpd, hcq, hqp, Ptr.released, Ledger.apply]

end Specs

end MegaVM
