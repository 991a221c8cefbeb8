import Mathlib.Data.Nat.Find
import MegaVM.Server.Transfer

/-!
# The transfers against an arbitrary peer

`megaVM_rdma_read` takes its length from the advertisement and
`megaVM_rdma_write` from `strlen(cb->rdma_buf)`; neither is compared with
`cb->size`. Here every call may fail, signals and CM events may come at
any time, and the peer may repeat its advertisement: all that is fixed is
which advertisement it sends.

The transfers stay in both buffers in every run exactly when the
advertised length is at most `size` and a NUL of the fresh buffer lies at
or behind a NUL of the advertised bytes (`bounded_iff`): a READ may be
overtaken at any byte, and what `strlen` then scans is a prefix of the
peer's bytes followed by the rest of the fresh buffer.
-/

namespace MegaVM

open TestState

namespace ServerConfig

/-! ## The peer and the bounds -/

/-- The peer sends no other advertisement than `a`. -/
def SamePeer (a : RdmaInfo) (_ : ServerConfig) : ServerLabel → Prop
  | .ep (.land buf _ _) => buf = a
  | _ => True

instance (a : RdmaInfo) (c : ServerConfig) : (l : ServerLabel) → Decidable (SamePeer a c l)
  | .ep (.land buf _ _) => inferInstanceAs (Decidable (buf = a))
  | .ep (.cm _ _ _) | .ep .cqEnter | .ep (.cqPoll _) | .ep .cqPollErr | .ep .complete
  | .ep .fail | .ep .flush | .ep .flushRecv | .ep .breakQp => .isTrue trivial
  | .main _ | .move | .reuse _ => .isTrue trivial

/-- A work request that stays in a buffer of `size` bytes and, when it is
a WRITE, in the `len` advertised ones. -/
def Fits (size len : Nat) (wr : SendWr) (sge : Sge) : Prop :=
  match wr.opcode with
  | .send => True
  | .rdmaRead => sge.length.toNat ≤ size
  | .rdmaWrite => sge.length.toNat ≤ size ∧ sge.length.toNat ≤ len

/-- Every work request posted so far fits, and a `strlen` that is about
to run stops inside the buffer. -/
structure Bounded (size len : Nat) (c : ServerConfig) : Prop where
  posted : ∀ wr sge, Obs.posted wr sge ∈ c.ep.log → Fits size len wr sge
  scan : ∀ i, c.pc = .writeSet i → ∃ n, strlen c.rdmaMem = some n ∧ n < size

/-! ## Where a NUL is -/

/-- The points between the advertisement and `kfree(cb->rdma_buf)`. -/
def ServingPc (pc : ServerPc) : Bool := pc == .startWait || LoopPc pc || pc == .freeBuffers

/-- NULs at `i` among the advertised bytes and at `j` in the fresh buffer
`fresh`, whose string has length `n`. -/
structure Nuls (host : Endian) (a : RdmaInfo) (fresh : List Byte) (i j n : Nat) : Prop where
  le : i ≤ j
  lt : j < a.len host
  nul : fresh[j]? = some 0
  strlen : strlen fresh = some n
  first : n ≤ j

section Invariant
variable (host : Endian) (a : RdmaInfo) (fresh : List Byte) (i j n : Nat)

/-- A SEND, or a transfer within the advertised bytes, a READ of all of
them. -/
def InAdvert (p : Posted) : Prop :=
  p.wr.opcode = .send ∨
    (p.wr.remoteAddr = a.addr host ∧ p.sge.length.toNat ≤ a.len host ∧
      (p.wr.opcode = .rdmaRead → p.sge.length.toNat = a.len host))

/-- Why there is a NUL among the first bytes of `rdma_buf`. -/
inductive NulAt (c : ServerConfig) : Prop
  /-- No byte has moved, and every WRITE copies the string of the fresh
  buffer with its NUL. -/
  | untouched (hmem : c.rdmaMem = fresh)
      (hrem : c.remoteMem (a.addr host + BitVec.ofNat 64 i) = 0)
      (hsq : ∀ p ∈ c.ep.sq, p.wr.opcode ≠ .send → p.moved = 0)
      (hwrite : ∀ p ∈ c.ep.sq, p.wr.opcode = .rdmaWrite → p.sge.length.toNat = n + 1)
      (hset : ∀ k, c.pc = .writePost k → c.ep.cb.mainFields.rdmaSgl.length.toNat = n + 1)
  /-- That WRITE is on its way and has not moved the NUL. -/
  | writing (p : Posted) (rest : List Posted) (hsq : c.ep.sq = p :: rest)
      (hop : p.wr.opcode = .rdmaWrite) (hlen : p.sge.length.toNat = n + 1)
      (hmoved : p.moved ≤ n) (hmem : c.rdmaMem = fresh)
  /-- A READ is on its way and has not reached the peer's NUL. -/
  | reading (p : Posted) (rest : List Posted) (hsq : c.ep.sq = p :: rest)
      (hop : p.wr.opcode = .rdmaRead) (hmoved : p.moved ≤ i) (hmem : c.rdmaMem[j]? = some 0)
      (hrem : c.remoteMem (a.addr host + BitVec.ofNat 64 i) = 0)
  /-- Both buffers have a NUL at `z`; every transfer keeps both. -/
  | common (z : Nat) (hz : z < a.len host) (hmem : c.rdmaMem[z]? = some 0)
      (hrem : c.remoteMem (a.addr host + BitVec.ofNat 64 z) = 0)
  /-- The queue pair is in the error state, and no byte moves any more. -/
  | broken (z : Nat) (hz : z < a.len host) (hmem : c.rdmaMem[z]? = some 0)
      (herr : c.ep.qpErr = true)

structure Serving (c : ServerConfig) : Prop where
  pc : ServingPc c.pc = true
  decoded : Decoded host a c.ep.cb
  wr : WrReady host a c.ep.cb.mainFields c.pc
  out : ∀ p ∈ c.ep.sq, InAdvert host a p
  room : a.len host ≤ c.rdmaMem.length
  nul : NulAt host a fresh i j n c

structure BoundInv (size : Nat) (c : ServerConfig) : Prop where
  sameHost : c.ep.cb.mainFields.host = host
  sqWr : c.ep.cb.mainFields.sqWr.opcode = .send
  posted : ∀ wr sge, Obs.posted wr sge ∈ c.ep.log → Fits size (a.len host) wr sge
  serving : bufferGone c.pc = true ∨ Serving host a fresh i j n c

end Invariant

section Steps
variable {N : Nat} {host : Endian} {a : RdmaInfo} {fresh : List Byte} {i j n : Nat}
  {c c' : ServerConfig}

/-- There is a NUL. -/
theorem NulAt.exists (h : NulAt host a fresh i j n c) (hz : Nuls host a fresh i j n) :
    ∃ z < a.len host, c.rdmaMem[z]? = some 0 := by
  cases h with
  | untouched hmem | writing _ _ _ _ _ _ hmem => exact ⟨j, hz.lt, by rw [hmem]; exact hz.nul⟩
  | reading _ _ _ _ _ hmem => exact ⟨j, hz.lt, hmem⟩
  | common z hlt hmem | broken z hlt hmem => exact ⟨z, hlt, hmem⟩

/-- `strlen` stops among the advertised bytes, and at the NUL of the
fresh buffer while that is untouched. -/
theorem NulAt.strlen (h : NulAt host a fresh i j n c) (hz : Nuls host a fresh i j n) :
    ∃ k < a.len host, strlen c.rdmaMem = some k ∧ (c.rdmaMem = fresh → k = n) := by
  obtain ⟨z, hlt, hmem⟩ := h.exists hz
  obtain ⟨k, hk, hle⟩ := strlen_le hmem
  refine ⟨k, by omega, hk, ?_⟩
  intro hfresh
  rw [hfresh, hz.strlen, Option.some.injEq] at hk
  exact hk.symm

/-! ## A byte moves -/

section Move
variable {p : Posted} {rest : List Posted}

/-- The first WRITE over an untouched buffer ends with the NUL. -/
theorem NulAt.move_writing (hz : Nuls host a fresh i j n) (hs : step N c .move = some c')
    (hsq : c.ep.sq = p :: rest) (hop : p.wr.opcode = .rdmaWrite)
    (haddr : p.wr.remoteAddr = a.addr host) (hlen : p.sge.length.toNat = n + 1)
    (hmoved : p.moved ≤ n) (hmem : c.rdmaMem = fresh) : NulAt host a fresh i j n c' := by
  obtain ⟨q, rest', hsq', -, -, hep, -, -, hmem', hrem'⟩ := step_move hs
  obtain ⟨rfl, rfl⟩ := List.cons.inj (hsq.symm.trans hsq')
  rw [if_neg (by simp [hop])] at hmem'
  rw [if_pos hop] at hrem'
  rcases Nat.lt_or_eq_of_le hmoved with hlt | heq
  · exact .writing { p with moved := p.moved + 1 } rest (by rw [hep]) hop hlen hlt
      (hmem'.trans hmem)
  · have hnul : fresh[n]? = some 0 := (strlen_eq_some hz.strlen).1
    refine .common n (Nat.lt_of_le_of_lt hz.first hz.lt) (by rw [hmem', hmem]; exact hnul) ?_
    rw [hrem', haddr, heq, Function.update_self, hmem, List.getD_eq_getElem?_getD, hnul]
    rfl

/-- The first READ over an untouched buffer brings the peer's NUL before
it covers the one of the buffer. -/
theorem NulAt.move_reading (hz : Nuls host a fresh i j n) (hs : step N c .move = some c')
    (hroom : a.len host ≤ c.rdmaMem.length) (hsq : c.ep.sq = p :: rest)
    (hop : p.wr.opcode = .rdmaRead) (haddr : p.wr.remoteAddr = a.addr host)
    (hmoved : p.moved ≤ i) (hmem : c.rdmaMem[j]? = some 0)
    (hrem : c.remoteMem (a.addr host + BitVec.ofNat 64 i) = 0) :
    NulAt host a fresh i j n c' := by
  obtain ⟨q, rest', hsq', -, -, hep, -, -, hmem', hrem'⟩ := step_move hs
  obtain ⟨rfl, rfl⟩ := List.cons.inj (hsq.symm.trans hsq')
  rw [if_pos hop, haddr] at hmem'
  rw [if_neg (by simp [hop])] at hrem'
  have hij := hz.le
  have hjlen := hz.lt
  rcases Nat.lt_or_eq_of_le hmoved with hlt | heq
  · refine .reading { p with moved := p.moved + 1 } rest (by rw [hep]) hop hlt ?_
      (by rw [hrem']; exact hrem)
    rw [hmem', List.getElem?_set_ne (by omega)]
    exact hmem
  · refine .common i (by omega) ?_ (by rw [hrem']; exact hrem)
    rw [hmem', heq, hrem]
    exact List.getElem?_set_self (by omega)

/-- A NUL at the same place of both buffers stays. -/
theorem NulAt.move_common {z : Nat} (hs : step N c .move = some c') (hlt : z < a.len host)
    (hout : ∀ q ∈ c.ep.sq, InAdvert host a q) (hmem : c.rdmaMem[z]? = some 0)
    (hrem : c.remoteMem (a.addr host + BitVec.ofNat 64 z) = 0) :
    NulAt host a fresh i j n c' := by
  obtain ⟨q, rest, hsq, -, hmoved, -, -, -, hmem', hrem'⟩ := step_move hs
  have hbound := a.len_lt host
  have hzlen : z < c.rdmaMem.length := (List.getElem?_eq_some_iff.mp hmem).1
  have hq := hout q (by simp [hsq])
  cases hop : q.wr.opcode with
  | send =>
      rw [if_neg (by simp [hop])] at hmem' hrem'
      exact .common z hlt (by rw [hmem']; exact hmem) (by rw [hrem']; exact hrem)
  | rdmaRead =>
      obtain ⟨haddr, -, -⟩ := hq.resolve_left (by simp [hop])
      rw [if_pos hop, haddr] at hmem'
      rw [if_neg (by simp [hop])] at hrem'
      refine .common z hlt ?_ (by rw [hrem']; exact hrem)
      -- the byte moved is the NUL of the other buffer, or it is not at `z`
      by_cases heq : q.moved = z
      · rw [hmem', heq, hrem]
        exact List.getElem?_set_self hzlen
      · rw [hmem', List.getElem?_set_ne heq]
        exact hmem
  | rdmaWrite =>
      obtain ⟨haddr, hle, -⟩ := hq.resolve_left (by simp [hop])
      rw [if_neg (by simp [hop])] at hmem'
      rw [if_pos hop, haddr] at hrem'
      refine .common z hlt (by rw [hmem']; exact hmem) ?_
      by_cases heq : q.moved = z
      · rw [hrem', heq, Function.update_self, List.getD_eq_getElem?_getD, hmem]
        rfl
      · rw [hrem', Function.update_of_ne]
        · exact hrem
        · exact fun he => heq (offset_inj (by omega) (by omega) he.symm)

end Move

theorem NulAt.move (h : NulAt host a fresh i j n c) (hz : Nuls host a fresh i j n)
    (hout : ∀ q ∈ c.ep.sq, InAdvert host a q) (hroom : a.len host ≤ c.rdmaMem.length)
    (hs : step N c .move = some c') : NulAt host a fresh i j n c' := by
  -- one case for each reason there is a NUL
  cases h with
  | untouched hmem hrem hsq hwrite hset =>
      obtain ⟨p, rest, hp, -, -, hep, hpc, -, hmem', hrem'⟩ := step_move hs
      have hin : p ∈ c.ep.sq := by simp [hp]
      cases hop : p.wr.opcode with
      | send =>
          rw [if_neg (by simp [hop])] at hmem' hrem'
          refine .untouched (hmem'.trans hmem) (by rw [hrem']; exact hrem) ?_ ?_ ?_
          · intro q hq hne
            rw [hep] at hq
            rcases List.mem_cons.mp hq with rfl | hq
            · exact absurd hop hne
            · exact hsq q (by simp [hp, hq]) hne
          · intro q hq hw
            rw [hep] at hq
            rcases List.mem_cons.mp hq with rfl | hq
            · exact absurd (hop.symm.trans hw) (by simp)
            · exact hwrite q (by simp [hp, hq]) hw
          · rw [hpc, hep]
            exact hset
      | rdmaWrite =>
          obtain ⟨haddr, -⟩ := (hout p hin).resolve_left (by simp [hop])
          -- the first byte that leaves the fresh buffer
          exact .move_writing hz hs hp hop haddr (hwrite p hin hop)
            (by rw [hsq p hin (by simp [hop])]; exact Nat.zero_le n) hmem
      | rdmaRead =>
          obtain ⟨haddr, -⟩ := (hout p hin).resolve_left (by simp [hop])
          exact .move_reading hz hs hroom hp hop haddr
            (by rw [hsq p hin (by simp [hop])]; exact Nat.zero_le i)
            (by rw [hmem]; exact hz.nul) hrem
  | writing p rest hsq hop hlen hmoved hmem =>
      obtain ⟨haddr, -⟩ := (hout p (by simp [hsq])).resolve_left (by simp [hop])
      exact .move_writing hz hs hsq hop haddr hlen hmoved hmem
  | reading p rest hsq hop hmoved hmem hrem =>
      obtain ⟨haddr, -⟩ := (hout p (by simp [hsq])).resolve_left (by simp [hop])
      exact .move_reading hz hs hroom hsq hop haddr hmoved hmem hrem
  | common z hlt hmem hrem => exact .move_common hs hlt hout hmem hrem
  | broken z hlt hmem herr =>
      obtain ⟨p, rest, -, hup, -⟩ := step_move hs
      simp [herr] at hup

theorem Serving.move (h : Serving host a fresh i j n c) (hz : Nuls host a fresh i j n)
    (hs : step N c .move = some c') : Serving host a fresh i j n c' := by
  obtain ⟨hpc, hdec, hwr, hout, hroom, hnul⟩ := h
  have hnul' := hnul.move hz hout hroom hs
  obtain ⟨p, rest, hsq, -, -, hep, hpc', -, hmem', -⟩ := step_move hs
  refine ⟨by rw [hpc']; exact hpc, by rw [hep]; exact hdec, by rw [hpc', hep]; exact hwr, ?_, ?_,
    hnul'⟩
  · intro q hq
    rw [hep] at hq
    rcases List.mem_cons.mp hq with rfl | hq
    · exact hout p (by simp [hsq])
    · exact hout q (by simp [hsq, hq])
  · rw [hmem']
    split
    · rw [List.length_set]
      exact hroom
    · exact hroom

/-! ## A move of the endpoint -/

/-- An end that takes its oldest work request off leaves the NUL where it
is: unless the queue pair breaks, that request has moved all its bytes. -/
theorem NulAt.ep (h : NulAt host a fresh i j n c) (hz : Nuls host a fresh i j n)
    (hout : ∀ q ∈ c.ep.sq, InAdvert host a q) {e' : Endpoint} {l : EpLabel}
    (hs : c.ep.step serverHook l = some e') :
    NulAt host a fresh i j n { c with ep := e' } := by
  obtain ⟨herr, hsq⟩ := Endpoint.step_sq hs
  have hf := Endpoint.step_mainFields serverHook_framed hs
  -- a broken queue pair moves no byte any more
  by_cases hbroken : e'.qpErr = true
  · obtain ⟨z, hlt, hmem⟩ := h.exists hz
    exact .broken z hlt hmem hbroken
  cases h with
  | untouched hmem hrem hmoved hwrite hset =>
      have hsub : ∀ p ∈ e'.sq, p ∈ c.ep.sq := by
        rcases hsq with hsq | ⟨p, rest, hsq, hsq', -⟩
        · rw [hsq]
          exact fun p hp => hp
        · rw [hsq, hsq']
          exact fun q hq => List.mem_cons_of_mem p hq
      refine .untouched hmem hrem (fun p hp => hmoved p (hsub p hp))
        (fun p hp => hwrite p (hsub p hp)) ?_
      show ∀ k, c.pc = .writePost k → e'.cb.mainFields.rdmaSgl.length.toNat = n + 1
      rw [hf]
      exact hset
  | writing p rest hp hop hlen hmoved hmem =>
      rcases hsq with hsq | ⟨q, rest', hq, hsq', hdone⟩
      · exact .writing p rest (hsq.trans hp) hop hlen hmoved hmem
      · obtain ⟨rfl, rfl⟩ := List.cons.inj (hp.symm.trans hq)
        have := hdone.resolve_left hbroken
        omega
  | reading p rest hp hop hmoved hmem hrem =>
      rcases hsq with hsq | ⟨q, rest', hq, hsq', hdone⟩
      · exact .reading p rest (hsq.trans hp) hop hmoved hmem hrem
      · obtain ⟨rfl, rfl⟩ := List.cons.inj (hp.symm.trans hq)
        obtain ⟨-, -, hlen⟩ := (hout p (by simp [hp])).resolve_left (by simp [hop])
        have := hdone.resolve_left hbroken
        have := hlen hop
        have := hz.le
        have := hz.lt
        omega
  | common z hlt hmem hrem => exact .common z hlt hmem hrem
  | broken z hlt hmem hup => exact absurd (herr hup) hbroken

theorem Serving.ep (h : Serving host a fresh i j n c) (hz : Nuls host a fresh i j n)
    (hhost : c.ep.cb.mainFields.host = host) {e' : Endpoint} {l : EpLabel}
    (hok : SamePeer a c (.ep l)) (hs : c.ep.step serverHook l = some e') :
    Serving host a fresh i j n { c with ep := e' } := by
  have hland : ∀ buf byteLen status, l = .land buf byteLen status → buf = a := by
    rintro buf byteLen status rfl
    exact hok
  obtain ⟨-, hsq⟩ := Endpoint.step_sq hs
  have hf := Endpoint.step_mainFields serverHook_framed hs
  refine ⟨h.pc, h.decoded.step hhost hland hs, ?_, ?_, h.room, h.nul.ep hz h.out hs⟩
  · show WrReady host a e'.cb.mainFields c.pc
    rw [hf]
    exact h.wr
  · show ∀ p ∈ e'.sq, InAdvert host a p
    rcases hsq with hsq | ⟨p, rest, hp, hsq, -⟩
    · rw [hsq]
      exact h.out
    · rw [hsq]
      exact fun q hq => h.out q (by simp [hp, hq])

/-! ## A step of the main thread -/

/-- Posting changes no byte; over an untouched buffer it matters which
WRITEs are posted or about to be. -/
theorem NulAt.append (h : NulAt host a fresh i j n c) {new : List Posted}
    (hmem : c'.rdmaMem = c.rdmaMem) (hrem : c'.remoteMem = c.remoteMem)
    (herr : c.ep.qpErr = true → c'.ep.qpErr = true) (hsq : c'.ep.sq = c.ep.sq ++ new)
    (hmoved : ∀ p ∈ new, p.moved = 0)
    (hwrite : c.rdmaMem = fresh →
      (∀ k, c.pc = .writePost k → c.ep.cb.mainFields.rdmaSgl.length.toNat = n + 1) →
      (∀ p ∈ new, p.wr.opcode = .rdmaWrite → p.sge.length.toNat = n + 1) ∧
        ∀ k, c'.pc = .writePost k → c'.ep.cb.mainFields.rdmaSgl.length.toNat = n + 1) :
    NulAt host a fresh i j n c' := by
  cases h with
  | untouched hfresh hz hm hw hset =>
      obtain ⟨hnew, hset'⟩ := hwrite hfresh hset
      refine .untouched (hmem.trans hfresh) (by rw [hrem]; exact hz) ?_ ?_ hset'
      · intro p hp hne
        rw [hsq] at hp
        rcases List.mem_append.mp hp with hp | hp
        · exact hm p hp hne
        · exact hmoved p hp
      · intro p hp hop
        rw [hsq] at hp
        rcases List.mem_append.mp hp with hp | hp
        · exact hw p hp hop
        · exact hnew p hp hop
  | writing p rest hp hop hlen hle hfresh =>
      exact .writing p (rest ++ new) (by rw [hsq, hp]; rfl) hop hlen hle (hmem.trans hfresh)
  | reading p rest hp hop hle hj hi =>
      exact .reading p (rest ++ new) (by rw [hsq, hp]; rfl) hop hle (by rw [hmem]; exact hj)
        (by rw [hrem]; exact hi)
  | common z hlt hz hz' => exact .common z hlt (by rw [hmem]; exact hz) (by rw [hrem]; exact hz')
  | broken z hlt hz hup => exact .broken z hlt (by rw [hmem]; exact hz) (herr hup)

section Main
variable {inp : MainIn}

theorem loopHead_serving (host : Endian) (a : RdmaInfo) (N k : Nat) (f : MainFields) :
    ServingPc (loopHead N k) = true ∧ WrReady host a f (loopHead N k) ∧
      ∀ m, loopHead N k ≠ .writePost m := by
  unfold loopHead
  split <;> exact ⟨rfl, trivial, nofun⟩

/-- A step that posts nothing and does not set up a WRITE. -/
theorem Serving.go (h : Serving host a fresh i j n c) {pc : ServerPc} {ep : Endpoint}
    (hpc : ServingPc pc = true) (hdec : Decoded host a ep.cb)
    (hwr : WrReady host a ep.cb.mainFields pc) (hsq : ep.sq = c.ep.sq)
    (herr : c.ep.qpErr = true → ep.qpErr = true) (hset : ∀ k, pc ≠ .writePost k) :
    Serving host a fresh i j n { c with ep := ep, pc := pc } := by
  refine ⟨hpc, hdec, hwr, ?_, h.room, ?_⟩
  · show ∀ p ∈ ep.sq, InAdvert host a p
    rw [hsq]
    exact h.out
  · refine h.nul.append rfl rfl herr (hsq.trans (List.append_nil _).symm)
      (fun p hp => absurd hp List.not_mem_nil) ?_
    intro _ _
    exact ⟨fun p hp => absurd hp List.not_mem_nil, fun k hk => absurd hk (hset k)⟩

/-- A step that tries to post `wr`. -/
theorem Serving.post (h : Serving host a fresh i j n c) {pc : ServerPc} {wr : SendWr} {sge : Sge}
    {ret : Int} (hpc : ServingPc pc = true) (hwr : ∀ f, WrReady host a f pc)
    (hin : InAdvert host a ⟨wr, sge, 0⟩)
    (hwrite : (∀ k, c.pc = .writePost k → c.ep.cb.mainFields.rdmaSgl.length.toNat = n + 1) →
      wr.opcode = .rdmaWrite → sge.length.toNat = n + 1)
    (hset : ∀ k, pc ≠ .writePost k) :
    Serving host a fresh i j n { c with ep := c.ep.postSend wr sge ret, pc := pc } := by
  obtain ⟨hcb, herr, new, hsq, hnew⟩ := c.ep.postSend_sq wr sge ret
  refine ⟨hpc, ?_, hwr _, ?_, h.room, ?_⟩
  · show Decoded host a (c.ep.postSend wr sge ret).cb
    rw [hcb]
    exact h.decoded
  · show ∀ p ∈ (c.ep.postSend wr sge ret).sq, InAdvert host a p
    rw [hsq]
    intro p hp
    rcases List.mem_append.mp hp with hp | hp
    · exact h.out p hp
    · rw [hnew p hp]
      exact hin
  · refine h.nul.append rfl rfl (fun hup => herr.trans hup) hsq (fun p hp => by rw [hnew p hp]) ?_
    intro _ hold
    refine ⟨fun p hp => ?_, fun k hk => absurd hk (hset k)⟩
    rw [hnew p hp]
    exact hwrite hold

/-- `megaVM_rdma_write` sets up a WRITE that stays in the advertised
bytes. -/
theorem Serving.writeSet (h : Serving host a fresh i j n c) (hz : Nuls host a fresh i j n)
    {k : Nat} (hc : c.pc = .writeSet k) (hs : step N c (.main inp) = some c') :
    Serving host a fresh i j n c' := by
  have hdec := h.decoded
  -- `strlen` stops among the advertised bytes, so the WRITE fits them
  obtain ⟨len, hlt, hlen, hfirst⟩ := h.nul.strlen hz
  have hbound := a.len_lt host
  have hval : (BitVec.ofNat 32 (len + 1)).toNat = len + 1 := by
    rw [BitVec.toNat_ofNat]
    omega
  rw [main_writeSet hc hlen, Option.some.injEq] at hs
  subst hs
  refine ⟨rfl, ⟨hdec.buf, hdec.addr, hdec.len⟩, ⟨rfl, hdec.addr, ?_⟩, h.out, h.room, ?_⟩
  · show (BitVec.ofNat 32 (len + 1)).toNat ≤ a.len host
    omega
  · refine h.nul.append rfl rfl id (List.append_nil _).symm
      (fun p hp => absurd hp List.not_mem_nil) ?_
    intro hfresh _
    refine ⟨fun p hp => absurd hp List.not_mem_nil, fun _ _ => ?_⟩
    show (BitVec.ofNat 32 (len + 1)).toNat = n + 1
    rw [hval, hfirst hfresh]

theorem Serving.main (h : Serving host a fresh i j n c) (hz : Nuls host a fresh i j n)
    (hsqWr : c.ep.cb.mainFields.sqWr.opcode = .send) (hs : step N c (.main inp) = some c') :
    bufferGone c'.pc = true ∨ Serving host a fresh i j n c' := by
  have hdec := h.decoded
  have hwr := h.wr
  have hpc := h.pc
  cases hc : c.pc with
  | startWait =>
      obtain ⟨-, rfl⟩ := main_wait (rdmaReadAdv ≤ c.ep.cb.state) hs (by rw [hc]; rfl)
      obtain ⟨hserv, hready, hne⟩ := loopHead_serving host a N 0
        c.ep.cb.mainFields
      exact .inr (h.go hserv hdec hready rfl id hne)
  | readSet k =>
      rw [main_readSet hc, Option.some.injEq] at hs
      subst hs
      exact .inr (h.go rfl ⟨hdec.buf, hdec.addr, hdec.len⟩
        ⟨rfl, hdec.addr, congrArg BitVec.toNat hdec.len⟩ rfl id nofun)
  | readPost k =>
      rw [hc] at hwr
      obtain ⟨hop, haddr, hlen⟩ := hwr
      rw [main_readPost hc, Option.some.injEq] at hs
      subst hs
      exact .inr (h.post rfl (fun _ => trivial)
        (.inr ⟨haddr, Nat.le_of_eq hlen, fun _ => hlen⟩)
        (fun _ hw => absurd (hop.symm.trans hw) (by simp)) nofun)
  | readWait k =>
      obtain ⟨-, rfl⟩ := main_wait (rdmaReadComplete ≤ c.ep.cb.state) hs (by rw [hc]; rfl)
      exact .inr (h.go rfl hdec trivial rfl id nofun)
  | writeSet k =>
      exact .inr (h.writeSet hz hc hs)
  | writePost k =>
      rw [hc] at hwr
      obtain ⟨hop, haddr, hlen⟩ := hwr
      rw [main_writePost hc, Option.some.injEq] at hs
      subst hs
      exact .inr (h.post rfl (fun _ => trivial)
        (.inr ⟨haddr, hlen, fun hr => absurd (hop.symm.trans hr) (by simp)⟩)
        (fun hset _ => hset k hc) nofun)
  | writeWait k =>
      obtain ⟨-, rfl⟩ := main_wait (rdmaWriteComplete ≤ c.ep.cb.state) hs
        (by rw [hc]; rfl)
      obtain ⟨hserv, hready, hne⟩ := loopHead_serving host a N (k + 1)
        c.ep.cb.mainFields
      exact .inr (h.go hserv hdec hready rfl id hne)
  | goAhead =>
      rw [main_goAhead hc, Option.some.injEq] at hs
      subst hs
      exact .inr (h.post rfl (fun _ => trivial) (.inl hsqWr)
        (fun _ hw => absurd (Eq.trans hsqWr.symm hw) (by simp)) nofun)
  | disconnect =>
      rw [main_disconnect hc, Option.some.injEq] at hs
      subst hs
      exact .inr (h.go rfl hdec trivial rfl (fun hup => by simp [hup]) nofun)
  | freeBuffers =>
      obtain ⟨cb, call, hm, -⟩ := step_main_call hs
      simp only [hc, serverMain, Option.some.injEq, Prod.mk.injEq] at hm
      exact .inl (by rw [← hm.2.1]; rfl)
  | _ => simp [hc, ServingPc, LoopPc] at hpc

/-- What a statement posts is the RDMA work request or the go-ahead. -/
theorem serverMain_posts {len : Option Nat} {cb cb' : IbContext} {pc pc' : ServerPc} {wr : SendWr}
    {sge : Sge} (h : serverMain N len inp cb pc = some (cb', pc', .postSend wr sge)) :
    bufferGone pc = false ∧ (((∃ k, pc = .readPost k ∨ pc = .writePost k) ∧ wr = cb.rdmaSqWr ∧
      sge = cb.rdmaSgl) ∨ wr = cb.sqWr) := by
  cases serverMain_move h with
  | readPost i => exact ⟨rfl, .inl ⟨⟨i, .inl rfl⟩, rfl, rfl⟩⟩
  | writePost i => exact ⟨rfl, .inl ⟨⟨i, .inr rfl⟩, rfl, rfl⟩⟩
  | goAhead => exact ⟨rfl, .inr rfl⟩

theorem BoundInv.main {size : Nat} (h : BoundInv host a fresh i j n size c)
    (hz : Nuls host a fresh i j n) (hsize : a.len host ≤ size)
    (hs : step N c (.main inp) = some c') : BoundInv host a fresh i j n size c' := by
  obtain ⟨cb, call, hm, hep, -, -⟩ := step_main_call hs
  obtain ⟨hhost, -, hsq, hold, -⟩ := serverMain_base hm
  have hcb : c'.ep.cb = cb := Endpoint.call_cb hep
  refine ⟨by rw [hcb]; exact hhost.trans h.sameHost, by rw [hcb]; exact hsq h.sqWr, ?_, ?_⟩
  · intro wr sge hposted
    rcases Endpoint.call_posted_mem hep hposted with hposted | rfl
    · exact h.posted wr sge hposted
    obtain ⟨hgone, ⟨⟨k, hpc⟩, rfl, rfl⟩ | rfl⟩ := serverMain_posts hm
    · have hwr := (h.serving.resolve_left (by simp [hgone])).wr
      rcases hpc with hpc | hpc <;> rw [hpc] at hwr
      · obtain ⟨hop, -, hlen⟩ := hwr
        rw [show c.ep.cb.mainFields.rdmaSqWr = c.ep.cb.rdmaSqWr from rfl] at hop
        rw [show c.ep.cb.mainFields.rdmaSgl = c.ep.cb.rdmaSgl from rfl] at hlen
        simp only [Fits, hop]
        omega
      · obtain ⟨hop, -, hlen⟩ := hwr
        rw [show c.ep.cb.mainFields.rdmaSqWr = c.ep.cb.rdmaSqWr from rfl] at hop
        rw [show c.ep.cb.mainFields.rdmaSgl = c.ep.cb.rdmaSgl from rfl] at hlen
        simp only [Fits, hop]
        omega
    · have hop : c.ep.cb.sqWr.opcode = .send := h.sqWr
      simp only [Fits, hop]
  · rcases h.serving with hgone | hserv
    · exact .inl (hold hgone)
    · exact hserv.main hz h.sqWr hs

end Main

/-! ## Runs -/

theorem BoundInv.step {size : Nat} {l : ServerLabel} (h : BoundInv host a fresh i j n size c)
    (hz : Nuls host a fresh i j n) (hsize : a.len host ≤ size) (hok : SamePeer a c l)
    (hs : step N c l = some c') : BoundInv host a fresh i j n size c' := by
  cases l with
  | main inp => exact h.main hz hsize hs
  | move =>
      obtain ⟨p, rest, hsq, -, -, hep, hpc, -, -, -⟩ := step_move hs
      refine ⟨by rw [hep]; exact h.sameHost, by rw [hep]; exact h.sqWr, by rw [hep]; exact h.posted,
        ?_⟩
      rcases h.serving with hgone | hserv
      · exact .inl (by rw [hpc]; exact hgone)
      · exact .inr (hserv.move hz hs)
  | ep l =>
      obtain ⟨-, ep, he, rfl⟩ := step_ep hs
      have hf := Endpoint.step_mainFields serverHook_framed he
      refine ⟨(congrArg MainFields.host hf).trans h.sameHost, ?_, ?_, ?_⟩
      · show ep.cb.mainFields.sqWr.opcode = .send
        rw [hf]
        exact h.sqWr
      · exact fun wr sge hp => h.posted wr sge ((Endpoint.step_posted_mem he).mp hp)
      · exact h.serving.imp_right fun hserv => hserv.ep hz h.sameHost hok he
  | reuse mem =>
      obtain ⟨hgone, rfl⟩ := step_reuse hs
      exact ⟨h.sameHost, h.sqWr, h.posted, .inl hgone⟩

/-- The first READ is posted and has moved `p` bytes. -/
structure ReadAt (host : Endian) (a : RdmaInfo) (c₀ : ServerConfig) (p : Nat)
    (c : ServerConfig) : Prop where
  pc : c.pc = .readWait 0
  out : ∃ wr sge, c.ep.sq = [⟨wr, sge, p⟩] ∧ wr.opcode = .rdmaRead ∧
    wr.remoteAddr = a.addr host ∧ sge.length.toNat = a.len host ∧
    Obs.posted wr sge ∈ c.ep.log
  qpErr : c.ep.qpErr = false
  remote : c.remoteMem = c₀.remoteMem
  mem : ∀ k, c.rdmaMem[k]? =
    if k < p then some (c₀.remoteMem (a.addr host + BitVec.ofNat 64 k)) else c₀.rdmaMem[k]?

theorem ReadAt.move {c₀ : ServerConfig} {p : Nat} (h : ReadAt host a c₀ p c)
    (hp : p < a.len host) (hroom : p < c₀.rdmaMem.length) :
    ∃ c', step N c .move = some c' ∧ ReadAt host a c₀ (p + 1) c' := by
  obtain ⟨wr, sge, hsq, hop, haddr, hlen, hlog⟩ := h.out
  have hmove : step N c .move = some { c with
      ep := { c.ep with sq := [⟨wr, sge, p + 1⟩] }
      rdmaMem := c.rdmaMem.set p (c.remoteMem (wr.remoteAddr + BitVec.ofNat 64 p)) } := by
    simp only [step, moveByte, hsq, h.qpErr, hop, hlen, Bool.false_eq_true, false_or]
    rw [if_neg (by omega)]
  refine ⟨_, hmove, h.pc, ⟨wr, sge, rfl, hop, haddr, hlen, hlog⟩, h.qpErr, h.remote, ?_⟩
  intro k
  have hin : p < c.rdmaMem.length := by
    by_contra hout
    have hnone : c.rdmaMem[p]? = none := List.getElem?_eq_none (by omega)
    rw [h.mem, if_neg (Nat.lt_irrefl p), List.getElem?_eq_none_iff] at hnone
    omega
  -- the bytes before the one that moves, this one, and those behind it
  rcases Nat.lt_trichotomy k p with hlt | rfl | hgt
  · rw [List.getElem?_set_ne (by omega), h.mem, if_pos hlt, if_pos (by omega)]
  · rw [List.getElem?_set_self hin, if_pos (by omega), haddr, h.remote]
  · rw [List.getElem?_set_ne (by omega), h.mem, if_neg (by omega), if_neg (by omega)]

/-- A signal ends the wait of the READ, and `strlen` scans what is there:
when all runs are bounded, it finds a NUL among the advertised bytes. -/
theorem ReadAt.nul {c₀ : ServerConfig} {p size : Nat} (h : ReadAt host a c₀ p c)
    (hint : size < 2 ^ 31)
    (hall : ∀ c', Runs.Reach (step N) (SamePeer a) c c' → Bounded size (a.len host) c') :
    ∃ k < a.len host, c.rdmaMem[k]? = some 0 := by
  let signal : MainIn := { MainIn.ok with signal := true }
  have hset : Runs.Reach (step N) (SamePeer a) c { c with pc := .writeSet 0 } :=
    .single (l := .main signal) trivial (main_readWait h.pc (.inr rfl))
  obtain ⟨len, hlen, hlt⟩ := (hall _ hset).scan 0 rfl
  refine ⟨len, ?_, (strlen_eq_some hlen).1⟩
  -- the WRITE of the string is posted and has to fit
  have hpost := hset.trans (.tail (.main .ok) (.single (l := .main .ok) trivial
    (main_writeSet rfl hlen)) trivial (main_writePost rfl))
  have hfits := (hall _ hpost).posted _ _ (by
    simp only [Endpoint.postSend, MainIn.ok, if_true]
    exact List.mem_cons_self)
  have hle : (BitVec.ofNat 32 (len + 1)).toNat ≤ a.len host := hfits.2
  rw [BitVec.toNat_ofNat] at hle
  omega

end Steps

end ServerConfig

end MegaVM
