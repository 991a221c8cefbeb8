import Mathlib.Data.BitVec
import Mathlib.Data.List.Basic

/-!
# The verbs and CM vocabulary

The enumerations and records both modules share: `enum test_state` with
the order its waits test, work completions, connection-manager events,
the advertisement on the wire, scatter entries and work requests, and
the completion queue with its one-shot notification.

A status or an event the code does not tell apart from others is one
constructor (`WcStatus.failure`, `CmEvent.other`).
-/

namespace MegaVM

abbrev Byte := BitVec 8

/-- A connection identifier; `0` is `NULL`. -/
abbrev CmId := Nat

/-- `enum test_state`. -/
inductive TestState
  | idle | connectRequest | addrResolved | routeResolved | connected
  | rdmaReadAdv | rdmaReadComplete | rdmaWriteAdv | rdmaWriteComplete
  | error
  deriving DecidableEq, Repr

namespace TestState

/-- The values of the enum: `IDLE = 1`, the others in order. -/
def val : TestState → Nat
  | idle => 1
  | connectRequest => 2
  | addrResolved => 3
  | routeResolved => 4
  | connected => 5
  | rdmaReadAdv => 6
  | rdmaReadComplete => 7
  | rdmaWriteAdv => 8
  | rdmaWriteComplete => 9
  | error => 10

instance : LE TestState := ⟨fun a b => a.val ≤ b.val⟩
instance : LT TestState := ⟨fun a b => a.val < b.val⟩
instance (a b : TestState) : Decidable (a ≤ b) := inferInstanceAs (Decidable (a.val ≤ b.val))
instance (a b : TestState) : Decidable (a < b) := inferInstanceAs (Decidable (a.val < b.val))

@[simp] theorem le_iff {a b : TestState} : a ≤ b ↔ a.val ≤ b.val := Iff.rfl
@[simp] theorem lt_iff {a b : TestState} : a < b ↔ a.val < b.val := Iff.rfl

attribute [simp] val

end TestState

/-! ## Completions and work requests -/

/-- `enum ib_wc_status`, as far as the handlers tell it apart. -/
inductive WcStatus
  | success | wrFlushErr | failure
  deriving DecidableEq, Repr

/-- `enum ib_wc_opcode`; `other` is everything in the `default:` arm. -/
inductive WcOpcode
  | send | rdmaWrite | rdmaRead | recv | other
  deriving DecidableEq, Repr

structure Wc where
  status : WcStatus
  opcode : WcOpcode
  byteLen : BitVec 32
  deriving DecidableEq, Repr

/-- The send opcodes the modules post. -/
inductive WrOpcode
  | send | rdmaRead | rdmaWrite
  deriving DecidableEq, Repr

/-- The completion opcode of a send work request. -/
def WrOpcode.wc : WrOpcode → WcOpcode
  | .send => .send
  | .rdmaRead => .rdmaRead
  | .rdmaWrite => .rdmaWrite

structure Sge where
  addr : BitVec 64
  length : BitVec 32
  lkey : BitVec 32
  deriving DecidableEq, Repr

/-- `struct ib_send_wr` without its scatter list. -/
structure SendWr where
  opcode : WrOpcode
  rkey : BitVec 32
  remoteAddr : BitVec 64
  deriving DecidableEq, Repr

/-- A work request on the send queue, with its scatter entry as it was
when `ib_post_send` took it. `moved` is the HCA's progress in bytes. -/
structure Posted where
  wr : SendWr
  sge : Sge
  moved : Nat
  deriving DecidableEq, Repr

structure Mr where
  lkey : BitVec 32
  rkey : BitVec 32
  deriving DecidableEq, Repr

/-! ## Connection-manager events -/

inductive CmEvent
  | addrResolved | addrError | routeResolved | routeError
  | connectRequest | connectError | unreachable | rejected
  | established | disconnected | deviceRemoval | other
  deriving DecidableEq, Repr

/-- The events whose arm of the handler writes `ERROR`. -/
def CmEvent.isError : CmEvent → Bool
  | .addrError | .routeError | .connectError | .unreachable | .rejected
  | .disconnected => true
  | _ => false

/-! ## The advertisement -/

/-- Byte order of the machine a module runs on. -/
inductive Endian
  | little | big
  deriving DecidableEq, Repr

def bswap32 (x : BitVec 32) : BitVec 32 :=
  x.extractLsb' 0 8 ++ x.extractLsb' 8 8 ++ x.extractLsb' 16 8 ++ x.extractLsb' 24 8

def bswap64 (x : BitVec 64) : BitVec 64 :=
  bswap32 (x.extractLsb' 0 32) ++ bswap32 (x.extractLsb' 32 32)

theorem bswap32_bswap32 (x : BitVec 32) : bswap32 (bswap32 x) = x := by
  apply BitVec.eq_of_getLsbD_eq
  intro i hi
  simp only [bswap32, BitVec.getLsbD_append, BitVec.getLsbD_extractLsb']
  grind

theorem bswap64_bswap64 (x : BitVec 64) : bswap64 (bswap64 x) = x := by
  have hlow : (bswap64 x).extractLsb' 0 32 = bswap32 (x.extractLsb' 32 32) :=
    BitVec.extractLsb'_append_eq_right
  have hhigh : (bswap64 x).extractLsb' 32 32 = bswap32 (x.extractLsb' 0 32) :=
    BitVec.extractLsb'_append_eq_left
  rw [bswap64, hlow, hhigh, bswap32_bswap32, bswap32_bswap32]
  apply BitVec.eq_of_getLsbD_eq
  intro i hi
  simp only [BitVec.getLsbD_append, BitVec.getLsbD_extractLsb']
  grind

def ntohl (host : Endian) (x : BitVec 32) : BitVec 32 :=
  match host with
  | .little => bswap32 x
  | .big => x

/-- `#define ntohll(x) cpu_to_be64((x))`. -/
def ntohll (host : Endian) (x : BitVec 64) : BitVec 64 :=
  match host with
  | .little => bswap64 x
  | .big => x

def htonl (host : Endian) (x : BitVec 32) : BitVec 32 := ntohl host x

/-- `#define htonll(x) cpu_to_be64((x))`. -/
def htonll (host : Endian) (x : BitVec 64) : BitVec 64 := ntohll host x

/-- `struct megaVM_rdma_info`, its fields as the host loads them. -/
structure RdmaInfo where
  buf : BitVec 64
  rkey : BitVec 32
  size : BitVec 32
  deriving DecidableEq, Repr

/-- `sizeof(struct megaVM_rdma_info)`. -/
def sizeofRdmaInfo : BitVec 32 := 16

/-! ## The completion queue -/

/-- A completion queue: what is in it, whether `ib_req_notify_cq` has
armed it, and how many handler invocations are queued. -/
structure Cq where
  queue : List Wc
  armed : Bool
  pending : Nat
  deriving DecidableEq, Repr

namespace Cq

def empty : Cq := ⟨[], false, 0⟩

/-- `ib_req_notify_cq(cq, IB_CQ_NEXT_COMP)`. -/
def reqNotify (q : Cq) : Cq := { q with armed := true }

/-- A completion arrives: an armed queue is disarmed and queues one
invocation of the handler. -/
def add (q : Cq) (wc : Wc) : Cq :=
  { queue := q.queue ++ [wc]
    armed := false
    pending := if q.armed then q.pending + 1 else q.pending }

@[simp] theorem add_queue (q : Cq) (wc : Wc) : (q.add wc).queue = q.queue ++ [wc] := rfl
@[simp] theorem reqNotify_queue (q : Cq) : q.reqNotify.queue = q.queue := rfl

end Cq

end MegaVM
