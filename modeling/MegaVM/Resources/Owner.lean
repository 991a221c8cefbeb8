import MegaVM.ErrorState
import MegaVM.Resources.Setup

/-!
# One side and what it owns

A side of the connection as in `MegaVM.ErrorState`, with the pointer
fields of its context and two ledgers: one of its own objects, one of the
cm ids its peer's requests open. The set-up functions return what
`MegaVM.Resources.Setup` computes from the outcomes of their calls.

A run is clean when it ends with both ledgers balanced and every set-up
function in it returned 0 exactly if it acquired all of its objects, and
otherwise kept none.
-/

namespace MegaVM

open TestState
open Ledger (Op)

/-- What a step of the main thread does to the objects. -/
structure Effect where
  /-- What the call of the step returns. -/
  ret : Int
  ptrs : Ptrs
  objs : List (Op Kind)
  kids : List (Op CmId)
  /-- `rdma_listen` succeeded. -/
  listens : Bool
  deriving DecidableEq, Repr

/-- A step that leaves the pointers alone. -/
def Effect.of (inp : MainIn) (p : Ptrs) (objs : List (Op Kind)) (kids : List (Op CmId)) :
    Effect := ⟨inp.ret, p, objs, kids, false⟩

/-- A set-up function. -/
def Effect.setUp (d : Done) (kids : List (Op CmId)) : Effect :=
  ⟨d.ret, d.ptrs, d.ops, kids, false⟩

/-- What a module is made of: the hook of its CQ handler, its main
thread and where that ends, what each step does to the objects, and which
of them a set-up function has to acquire. -/
structure Program (Pc : Type) where
  hook : RecvHook
  thread : Thread Pc
  freed : Pc
  effect : MainIn → Outcomes → Ptrs → IbContext → Pc → Effect
  own : Pc → Option (List Kind)

/-- `initialisation`, `megaVM_StartServer` and what they call. -/
def serverEffect (inp : MainIn) (o : Outcomes) (p : Ptrs) (cb : IbContext) :
    ServerPc → Effect
  | .bindAddr => .of inp p (p.cmId.used .cmId) []
  | .listen => { Effect.of inp p (p.cmId.used .cmId) [] with listens := inp.ret = 0 }
  | .setupQp => .setUp (setupPdAndQp o p) [.use cb.childCmId]
  | .setupBuffers => .setUp (setupBuffers o p) []
  | .postRecv | .readPost _ | .writePost _ | .goAhead => .of inp p (p.qp.used .qp) []
  | .accept | .disconnect => .of inp p [] [.use cb.childCmId]
  | .readSet _ => .of inp p (p.dmaMr.used .dmaMr) []
  | .writeSet _ => .of inp p (p.rdmaBuf.used .rdmaBuf ++ p.dmaMr.used .dmaMr) []
  | .freeBuffers => .of inp p (serverFreeBuffers p) []
  | .freeQp => .of inp p (megaVMFreeQp p) []
  | .destroyChild => .of inp p [] [.release cb.childCmId]
  | .destroyListener => .of inp p (p.cmId.released .cmId ++ [.release .context]) []
  | .bindWait | .bindTest | .acceptWait | .acceptTest | .startWait | .readWait _ | .writeWait _
  | .freed | .oops => .of inp p [] []

/-- `megaVM_doit`, `megaVM_run_client` and what they call. -/
def clientEffect (inp : MainIn) (o : Outcomes) (p : Ptrs) (_ : IbContext) : ClientPc → Effect
  | .resolveAddr | .connect | .disconnect => .of inp p (p.cmId.used .cmId) []
  | .setupQp => .setUp (megaVMSetupQp o p) []
  | .setupBuffers => .setUp (megaVMSetupBuffers o p) []
  | .postRecv | .testPost => .of inp p (p.qp.used .qp) []
  | .testFill => .of inp p (p.startBuf.used .startBuf ++ p.dmaMr.used .dmaMr) []
  | .freeBuffers => .of inp p (clientFreeBuffers p) []
  | .freeQp => .of inp p (megaVMFreeQp p) []
  | .destroyId => .of inp p (p.cmId.released .cmId ++ [.release .context]) []
  | .bindWait | .bindTest | .connectWait | .connectTest | .testSet | .testWait | .freed =>
      .of inp p [] []

/-- The objects of the two set-up functions of each module. -/
def qpObjects : List Kind := [.pd, .cq, .qp]

def serverBuffers : List Kind := [.recvMap, .sendMap, .dmaMr, .rdmaBuf, .rdmaMap]

def clientBuffers : List Kind := serverBuffers ++ [.startBuf, .startMap]

def serverProgram (N : Nat) : Program ServerPc where
  hook := serverHook
  thread := serverThread N
  freed := .freed
  effect := serverEffect
  own
    | .setupQp => some qpObjects
    | .setupBuffers => some serverBuffers
    | _ => none

def clientProgram : Program ClientPc where
  hook := clientHook
  thread := clientThread
  freed := .freed
  effect := clientEffect
  own
    | .setupQp => some qpObjects
    | .setupBuffers => some clientBuffers
    | _ => none

structure Owner (Pc : Type) where
  side : Side Pc
  ptrs : Ptrs
  objs : Ledger Kind
  /-- The ids that came with `CONNECT_REQUEST`. -/
  kids : Ledger CmId
  /-- All of them so far, newest first. -/
  born : List CmId
  listening : Bool
  deriving DecidableEq, Repr

/-- As `SideLabel`, with the outcomes of the calls of a set-up function. -/
inductive OwnerLabel
  | main (inp : MainIn) (len : Option Nat) (out : Outcomes)
  | cm (event : CmEvent) (id : CmId) (ret : Int)
  | cq (polls : List Poll) (pollRet : Int)
  deriving DecidableEq, Repr

namespace Owner

variable {Pc : Type} [DecidableEq Pc]

/-- One step. A request comes to a listening id only, with an id of its
own; the CQ handler runs only while there is a completion queue, and uses
that and the queue pair. -/
def step (P : Program Pc) (c : Owner Pc) : OwnerLabel → Option (Owner Pc)
  | .main inp len out =>
      let e := P.effect inp out c.ptrs c.side.cb c.side.pc
      (c.side.step P.hook P.thread P.freed (.main { inp with ret := e.ret } len)).map fun side =>
        { c with
          side := side
          ptrs := e.ptrs
          objs := c.objs.run e.objs
          kids := c.kids.run e.kids
          listening := c.listening || e.listens }
  | .cm event id ret =>
      if event = .connectRequest then
        if c.listening = false ∨ id ∈ c.born then none
        else (c.side.step P.hook P.thread P.freed (.cm event id ret)).map fun side =>
          { c with side := side, kids := c.kids.run [.acquire id], born := id :: c.born }
      else
        (c.side.step P.hook P.thread P.freed (.cm event id ret)).map fun side =>
          { c with side := side }
  | .cq polls pollRet =>
      if .cq ∉ c.objs.live then none
      else (c.side.step P.hook P.thread P.freed (.cq polls pollRet)).map fun side =>
        { c with side := side, objs := c.objs.run (c.ptrs.cq.used .cq ++ c.ptrs.qp.used .qp) }

/-- How the two functions that create the context begin: `kzalloc` fails,
`rdma_create_id` fails, or neither. -/
inductive Boot
  | noContext
  | noId (code : Fin 4095)
  | ready
  deriving DecidableEq, Repr

/-- The state in which the main thread proper starts, at `pc`. An
`ERR_PTR` from `rdma_create_id` is not `NULL`, so the module goes on with
it. -/
def boot (P : Program Pc) (cb : IbContext) (pc : Pc) : Boot → Owner Pc
  | .noContext =>
      { side := ⟨cb, P.freed⟩, ptrs := .init .null, objs := ⟨[], 0⟩, kids := ⟨[], 0⟩, born := []
        listening := false }
  | .noId code =>
      { side := ⟨cb, pc⟩, ptrs := .init (.err code), objs := ⟨[.context], 0⟩, kids := ⟨[], 0⟩
        born := [], listening := false }
  | .ready =>
      { side := ⟨cb, pc⟩, ptrs := .init .obj, objs := ⟨[.cmId, .context], 0⟩, kids := ⟨[], 0⟩
        born := [], listening := false }

/-- A step of a set-up function returns 0 exactly if all objects of the
function are there afterwards, and otherwise none of them is. -/
def Exact (P : Program Pc) (t : Owner Pc × OwnerLabel × Owner Pc) : Prop :=
  ∀ inp len out own, t.2.1 = .main inp len out → P.own t.1.side.pc = some own →
    let ret := (P.effect inp out t.1.ptrs t.1.side.cb t.1.side.pc).ret
    (ret = 0 ↔ ∀ k ∈ own, k ∈ t.2.2.objs.live) ∧ (ret ≠ 0 → ∀ k ∈ own, k ∉ t.2.2.objs.live)

/-- The resources are balanced on a run that comes to its end. -/
structure Clean (P : Program Pc) (s : Owner Pc) (p : List (OwnerLabel × Owner Pc)) : Prop where
  objs : (Runs.last s p).objs.Balanced
  kids : (Runs.last s p).kids.Balanced
  setUps : ∀ t ∈ Runs.steps s p, Exact P t

/-! ## Inversion of a step -/

section Step
variable {P : Program Pc} {c c' : Owner Pc}

theorem step_main {inp : MainIn} {len : Option Nat} {out : Outcomes}
    (h : step P c (.main inp len out) = some c') :
    let e := P.effect inp out c.ptrs c.side.cb c.side.pc
    P.thread { inp with ret := e.ret } len c.side.cb c.side.pc = some (c'.side.cb, c'.side.pc) ∧
      c'.ptrs = e.ptrs ∧ c'.objs = c.objs.run e.objs ∧ c'.kids = c.kids.run e.kids ∧
      c'.born = c.born ∧ c'.listening = (c.listening || e.listens) := by
  simp only [step, Side.step, Option.map_map, Option.map_eq_some_iff, Function.comp_apply] at h
  obtain ⟨⟨cb, pc⟩, hthread, rfl⟩ := h
  exact ⟨hthread, rfl, rfl, rfl, rfl, rfl⟩

theorem step_cm {event : CmEvent} {id : CmId} {ret : Int}
    (h : step P c (.cm event id ret) = some c') :
    c.side.pc ≠ P.freed ∧ c'.side = ⟨(cmaEventHandler c.side.cb event id ret).1, c.side.pc⟩ ∧
      c'.ptrs = c.ptrs ∧ c'.objs = c.objs ∧ c'.listening = c.listening ∧
      ((event ≠ .connectRequest ∧ c'.kids = c.kids ∧ c'.born = c.born) ∨
        (event = .connectRequest ∧ c.listening = true ∧ id ∉ c.born ∧
          c'.kids = { c.kids with live := id :: c.kids.live } ∧ c'.born = id :: c.born)) := by
  have hside : ∀ side, c.side.step P.hook P.thread P.freed (.cm event id ret) = some side →
      c.side.pc ≠ P.freed ∧ side = ⟨(cmaEventHandler c.side.cb event id ret).1, c.side.pc⟩ := by
    intro side hs
    simp only [Side.step] at hs
    split at hs
    · cases hs
    · cases hs
      exact ⟨‹_›, rfl⟩
  simp only [step] at h
  split at h
  · rename_i hreq
    split at h
    · cases h
    · rename_i hfree
      simp only [not_or, Bool.not_eq_false] at hfree
      obtain ⟨side, hs, rfl⟩ := Option.map_eq_some_iff.mp h
      obtain ⟨hpc, rfl⟩ := hside side hs
      exact ⟨hpc, rfl, rfl, rfl, rfl, .inr ⟨hreq, hfree.1, hfree.2, rfl, rfl⟩⟩
  · rename_i hreq
    obtain ⟨side, hs, rfl⟩ := Option.map_eq_some_iff.mp h
    obtain ⟨hpc, rfl⟩ := hside side hs
    exact ⟨hpc, rfl, rfl, rfl, rfl, .inl ⟨hreq, rfl, rfl⟩⟩

theorem step_cq {polls : List Poll} {pollRet : Int}
    (h : step P c (.cq polls pollRet) = some c') :
    Kind.cq ∈ c.objs.live ∧ c.side.pc ≠ P.freed ∧
      c' = { c with
        side := ⟨cqEventHandler P.hook c.side.cb polls pollRet, c.side.pc⟩
        objs := c.objs.run (c.ptrs.cq.used .cq ++ c.ptrs.qp.used .qp) } := by
  simp only [step] at h
  split at h
  · cases h
  · rename_i hcq
    obtain ⟨side, hs, rfl⟩ := Option.map_eq_some_iff.mp h
    simp only [Side.step] at hs
    split at hs
    · cases hs
    · cases hs
      exact ⟨not_not.mp hcq, ‹_›, rfl⟩

end Step

end Owner

end MegaVM
