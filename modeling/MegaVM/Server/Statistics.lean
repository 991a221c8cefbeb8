import MegaVM.Server.Teardown
import MegaVM.Server.Transfer

/-!
# The statistics

The CQ handler adds a length to `stats` for every successful completion:
for an RDMA operation the length that `rdma_sgl` holds at that moment, for
a received message the size of `recv_buf`. `Agree` says that this is the
length the operation was posted with, and the length received.

The completions of the send queue come back in posting order
(`Ordered`), which is what tells the length a handled operation
was posted with. A run agrees exactly when each polled completion has the
length that is added for it (`agree_iff_counted`).
-/

namespace MegaVM

open TestState Runs

/-! ## Completions in posting order -/

/-- A request as it was posted: the opcode of its completion, its length. -/
abbrev Request := WcOpcode × BitVec 32

def Obs.sent? : Obs → Option Request
  | .posted wr sge => some (wr.opcode.wc, sge.length)
  | _ => none

def Obs.handled? : Obs → Option Wc
  | .handled wc => some wc
  | _ => none

def Wc.request (wc : Wc) : Request := (wc.opcode, wc.byteLen)

def Posted.request (p : Posted) : Request := (p.wr.opcode.wc, p.sge.length)

/-- The completion of a request of the send queue. -/
def Wc.isReturn (wc : Wc) : Bool := wc.opcode != .recv

namespace Endpoint

/-- The requests `ib_post_send` has taken, oldest first. -/
def sent (e : Endpoint) : List Request := e.log.reverse.filterMap (·.sent?)

/-- The completions polled, oldest first. -/
def polled (e : Endpoint) : List Wc := e.log.reverse.filterMap (·.handled?)

/-- Those of the send queue. -/
def returned (e : Endpoint) : List Wc := e.polled.filter (·.isReturn)

/-- The requests whose completion has not been polled, oldest first. -/
def pending (e : Endpoint) : List Request :=
  (e.cq.queue.filter (·.isReturn)).map (·.request) ++ e.sq.map (·.request)

variable {e e' : Endpoint}

theorem sent_quiet {o : Obs} (hlog : e'.log = o :: e.log) (ho : o.sent? = none) :
    e'.sent = e.sent := by
  simp [sent, hlog, ho]

theorem polled_quiet {o : Obs} (hlog : e'.log = o :: e.log) (ho : o.handled? = none) :
    e'.polled = e.polled := by
  simp [polled, hlog, ho]

theorem polled_handled {wc : Wc} (hlog : e'.log = .handled wc :: e.log) :
    e'.polled = e.polled ++ [wc] := by
  simp [polled, hlog, Obs.handled?]

theorem retire_pending {p : Posted} {rest : List Posted} (h : e.sq = p :: rest)
    (status : WcStatus) : (e.retire p rest status).pending = e.pending := by
  have hret : (⟨status, p.wr.opcode.wc, p.sge.length⟩ : Wc).isReturn = true := by
    cases p.wr.opcode <;> rfl
  simp [pending, retire, h, hret, Wc.request, Posted.request]

/-- **No move of an end changes the order of the requests**: a completion
takes its request's place, and a poll moves the oldest one on. -/
theorem step_order {hook : RecvHook} {l : EpLabel} (h : e.step hook l = some e') :
    e'.sent = e.sent ∧
      e'.returned.map (·.request) ++ e'.pending = e.returned.map (·.request) ++ e.pending := by
  cases l with
  | cm event id ret =>
      simp only [step, Option.some.injEq] at h
      subst h
      by_cases hreq : event = .connectRequest
      · have hlog : (e.cm event id ret).log = .delivered id :: e.log := by simp [cm, hreq]
        refine ⟨sent_quiet hlog rfl, ?_⟩
        rw [returned, polled_quiet hlog rfl]
        rfl
      · have hlog : (e.cm event id ret).log = e.log := by simp [cm, hreq]
        rw [sent, returned, polled, hlog]
        exact ⟨rfl, rfl⟩
  | cqEnter =>
      obtain ⟨-, -, rfl⟩ := step_cqEnter h
      exact ⟨rfl, rfl⟩
  | cqPoll ret =>
      obtain ⟨-, ⟨hq, rfl⟩ | ⟨wc, rest, hq, rfl⟩⟩ := step_poll h
      · exact ⟨rfl, rfl⟩
      · refine ⟨sent_quiet rfl rfl, ?_⟩
        -- what is polled moves from the pending requests to the returned ones
        rw [returned, polled_handled rfl, List.filter_append, returned]
        cases hret : wc.isReturn <;> simp [pending, hq, hret]
  | cqPollErr =>
      obtain ⟨-, rfl⟩ := step_cqPollErr h
      exact ⟨rfl, rfl⟩
  | complete =>
      obtain ⟨p, rest, hsq, -, -, rfl⟩ := step_complete h
      exact ⟨rfl, by rw [retire_pending hsq]; rfl⟩
  | fail =>
      obtain ⟨p, rest, hsq, -, rfl⟩ := step_fail h
      exact ⟨rfl, congrArg (_ ++ ·) (retire_pending hsq .failure)⟩
  | flush =>
      obtain ⟨p, rest, hsq, -, rfl⟩ := step_flush h
      exact ⟨rfl, by rw [retire_pending hsq]; rfl⟩
  | land buf byteLen status =>
      obtain ⟨-, -, rfl⟩ := step_land h
      refine ⟨rfl, ?_⟩
      -- a receive is no request
      simp [pending, Wc.isReturn]
      rfl
  | flushRecv =>
      obtain ⟨-, -, rfl⟩ := step_flushRecv h
      refine ⟨rfl, ?_⟩
      simp [pending, Wc.isReturn]
      rfl
  | breakQp =>
      simp only [step, Option.some.injEq] at h
      subst h
      exact ⟨rfl, rfl⟩

/-- What a call of the main thread does to the requests; it polls nothing. -/
theorem call_order {inp : MainIn} {call : Call} (h : e.call inp call = some e') :
    e'.polled = e.polled ∧
      ((∃ wr sge, call = .postSend wr sge ∧ e'.sent = e.sent ++ [(wr.opcode.wc, sge.length)] ∧
          e'.pending = e.pending ++ [(wr.opcode.wc, sge.length)]) ∨
        (call = .destroyQp ∧ e'.sent = e.sent ∧ e'.pending = []) ∨
        (e'.sent = e.sent ∧ e'.pending = e.pending)) := by
  cases call with
  | postSend wr sge =>
      obtain rfl := Option.some.inj h
      by_cases hret : inp.ret = 0
      · refine ⟨?_, .inl ⟨wr, sge, rfl, ?_, ?_⟩⟩
        · simp [polled, postSend, hret, Obs.handled?]
        · simp [sent, postSend, hret, Obs.sent?]
        · simp [pending, postSend, hret, Posted.request]
      · refine ⟨?_, .inr (.inr ⟨?_, ?_⟩)⟩
        · simp [polled, postSend, hret, Obs.handled?]
        · simp [sent, postSend, hret, Obs.sent?]
        · simp [pending, postSend, hret]
  | destroyQp =>
      simp only [Endpoint.call, destroyQp] at h
      split at h <;> cases h
      exact ⟨rfl, .inr (.inl ⟨rfl, rfl, rfl⟩)⟩
  | createQp | accept | disconnect | destroyId =>
      obtain rfl := Option.some.inj h
      exact ⟨polled_quiet rfl rfl, .inr (.inr ⟨sent_quiet rfl rfl, rfl⟩)⟩
  | _ =>
      obtain rfl := Option.some.inj h
      exact ⟨rfl, .inr (.inr ⟨rfl, rfl⟩)⟩

end Endpoint

namespace ServerConfig

/-- The points behind `ib_destroy_qp`. -/
def QpGone : ServerPc → Bool
  | .destroyChild | .destroyListener | .freed => true
  | _ => false

/-- The polled completions of the send queue, and then what is still out,
are the requests in posting order; `ib_destroy_qp` forgets the rest. -/
structure Ordered (c : ServerConfig) : Prop where
  whole : QpGone c.pc = false →
    c.ep.returned.map (·.request) ++ c.ep.pending = c.ep.sent
  start : c.ep.returned.map (·.request) ++ c.ep.pending <+: c.ep.sent

section Ordered
variable {N : Nat} {c c' : ServerConfig} {l : ServerLabel}

theorem serverMain_gone {len : Option Nat} {inp : MainIn} {cb cb' : IbContext} {pc pc' : ServerPc}
    {call : Call} (hm : serverMain N len inp cb pc = some (cb', pc', call)) :
    (QpGone pc' = false → QpGone pc = false ∧ call ≠ .destroyQp) ∧
      ∀ wr sge, call = .postSend wr sge → QpGone pc' = false := by
  cases serverMain_move hm <;> simp [QpGone]

theorem Ordered.still (h : Ordered c) (hpc : QpGone c'.pc = false → QpGone c.pc = false)
    (hreq : c'.ep.returned.map (·.request) ++ c'.ep.pending
      = c.ep.returned.map (·.request) ++ c.ep.pending)
    (hsent : c'.ep.sent = c.ep.sent) : Ordered c' := by
  obtain ⟨hwhole, hstart⟩ := h
  refine ⟨fun hpc' => ?_, ?_⟩
  · rw [hreq, hsent]
    exact hwhole (hpc hpc')
  · rw [hreq, hsent]
    exact hstart

theorem Ordered.step (h : Ordered c) (hs : c.step N l = some c') : Ordered c' := by
  cases l with
  | main inp =>
      obtain ⟨cb, call, hm, hcall, -, -⟩ := step_main_call hs
      obtain ⟨hgone, hposts⟩ := serverMain_gone hm
      obtain ⟨hpolled, hcases⟩ := Endpoint.call_order hcall
      have hret : c'.ep.returned = c.ep.returned := congrArg (List.filter Wc.isReturn) hpolled
      rcases hcases with ⟨wr, sge, rfl, hsent, hpend⟩ | ⟨rfl, hsent, hpend⟩ | ⟨hsent, hpend⟩
      · have hall := h.whole (hgone (hposts wr sge rfl)).1
        have hnext : c'.ep.returned.map (·.request) ++ c'.ep.pending = c'.ep.sent := by
          rw [hret, hpend, hsent, ← List.append_assoc]
          exact congrArg (· ++ _) hall
        exact ⟨fun _ => hnext, hnext ▸ List.prefix_rfl⟩
      · refine ⟨fun hpc => absurd rfl (hgone hpc).2, ?_⟩
        rw [hret, hpend, hsent, List.append_nil]
        exact (List.prefix_append _ _).trans h.start
      · exact h.still (fun hpc => (hgone hpc).1) (by rw [hret, hpend]; rfl) hsent
  | move =>
      obtain ⟨p, rest, hsq, -, -, hep, hpc, -⟩ := step_move hs
      refine h.still (fun hgone => hpc ▸ hgone) ?_ (by rw [hep]; rfl)
      simp [hep, Endpoint.returned, Endpoint.polled, Endpoint.pending, hsq, Posted.request]
  | ep l =>
      obtain ⟨-, ep, he, rfl⟩ := step_ep hs
      obtain ⟨hsent, hreq⟩ := Endpoint.step_order he
      exact h.still id hreq hsent
  | reuse mem =>
      obtain ⟨-, rfl⟩ := step_reuse hs
      exact h.still id rfl rfl

end Ordered

end ServerConfig

/-! ## Bytes and messages -/

/-- The bytes `stats` has for an opcode. -/
def Stats.bytes (s : Stats) : WcOpcode → BitVec 64
  | .send => s.sendBytes
  | .rdmaWrite => s.writeBytes
  | .rdmaRead => s.readBytes
  | .recv => s.recvBytes
  | .other => 0

def Stats.msgs (s : Stats) : WcOpcode → BitVec 64
  | .send => s.sendMsgs
  | .rdmaWrite => s.writeMsgs
  | .rdmaRead => s.readMsgs
  | .recv => s.recvMsgs
  | .other => 0

/-- The length the handler adds for a successful completion. -/
def IbContext.counted (cb : IbContext) : WcOpcode → BitVec 32
  | .send => cb.sendSgl.length
  | .rdmaWrite | .rdmaRead => cb.rdmaSgl.length
  | .recv => sizeofRdmaInfo
  | .other => 0

/-- A successful completion with opcode `op`. -/
def Wc.succeeds (op : WcOpcode) (wc : Wc) : Bool := wc.status == .success && wc.opcode == op

/-- The bytes of the successful completions with opcode `op`. -/
def totalBytes (op : WcOpcode) (wcs : List Wc) : BitVec 64 :=
  ((wcs.filter (·.succeeds op)).map (·.byteLen.setWidth 64)).sum

theorem totalBytes_concat (op : WcOpcode) (wcs : List Wc) (wc : Wc) :
    totalBytes op (wcs ++ [wc]) =
      totalBytes op wcs + if wc.succeeds op then wc.byteLen.setWidth 64 else 0 := by
  cases h : wc.succeeds op <;> simp [totalBytes, h]

namespace Endpoint

/-- The bytes with which the operations handled as successful completions
with opcode `op` were posted: the completions polled are those of the
oldest requests, one by one. -/
def postedBytes (op : WcOpcode) (e : Endpoint) : BitVec 64 :=
  (((e.sent.zip e.returned).filter (·.2.succeeds op)).map (·.1.2.setWidth 64)).sum

/-- The successful completions handled. -/
def successes (op : WcOpcode) (e : Endpoint) : Nat := e.polled.countP (·.succeeds op)

/-- The statistics are those of the traffic. -/
structure Agree (e : Endpoint) : Prop where
  readBytes : e.cb.stats.readBytes = e.postedBytes .rdmaRead
  readMsgs : e.cb.stats.readMsgs = BitVec.ofNat 64 (e.successes .rdmaRead)
  writeBytes : e.cb.stats.writeBytes = e.postedBytes .rdmaWrite
  writeMsgs : e.cb.stats.writeMsgs = BitVec.ofNat 64 (e.successes .rdmaWrite)
  recvBytes : e.cb.stats.recvBytes = totalBytes .recv e.polled
  recvMsgs : e.cb.stats.recvMsgs = BitVec.ofNat 64 (e.successes .recv)

/-- The completion polled next has the length that is added for it. -/
def Counted (e : Endpoint) : EpLabel → Prop
  | .cqPoll _ => ∀ wc ∈ e.cq.queue.head?, wc.status = .success →
      (wc.opcode.isRdma = true → wc.byteLen = e.cb.rdmaSgl.length) ∧
      (wc.opcode = .recv → wc.byteLen = sizeofRdmaInfo)
  | _ => True

instance (e : Endpoint) : (l : EpLabel) → Decidable (e.Counted l)
  | .cqPoll _ => inferInstanceAs (Decidable (∀ wc ∈ e.cq.queue.head?, wc.status = .success →
      (wc.opcode.isRdma = true → wc.byteLen = e.cb.rdmaSgl.length) ∧
      (wc.opcode = .recv → wc.byteLen = sizeofRdmaInfo)))
  | .cm .. | .cqEnter | .cqPollErr | .complete | .fail | .flush | .land .. | .flushRecv
  | .breakQp => .isTrue trivial

/-- What `stats` has for one opcode is what was polled. -/
structure Tallied (op : WcOpcode) (e : Endpoint) : Prop where
  bytes : e.cb.stats.bytes op = totalBytes op e.polled
  msgs : e.cb.stats.msgs op = BitVec.ofNat 64 (e.successes op)

/-- So for every opcode `Agree` is about. -/
def Tallies (e : Endpoint) : Prop := ∀ op, WcOpcode.isRdma op = true ∨ op = .recv → e.Tallied op

variable {e e' : Endpoint} {op : WcOpcode}

/-- A request's completion reports the length it was posted with. -/
theorem postedBytes_eq (op : WcOpcode) (hstart : e.returned.map (·.request) <+: e.sent)
    (hop : op ≠ .recv) : e.postedBytes op = totalBytes op e.polled := by
  obtain ⟨rest, hrest⟩ := hstart
  have hzip : e.sent.zip e.returned = e.returned.map fun wc => (wc.request, wc) := by
    calc e.sent.zip e.returned
        = (e.returned.map (·.request) ++ rest).zip (e.returned ++ []) := by
          rw [hrest, List.append_nil]
      _ = (e.returned.map (·.request)).zip (e.returned.map id) := by
          rw [List.zip_append (by simp), List.zip_nil_right, List.append_nil, List.map_id]
      _ = e.returned.map fun wc => (wc.request, wc) := List.zip_map'
  have hreturn : ∀ wc : Wc, (wc.succeeds op && wc.isReturn) = wc.succeeds op := by
    intro wc
    by_cases h : wc.opcode = op
    · simp [Wc.isReturn, h, hop]
    · simp [Wc.succeeds, h]
  rw [postedBytes, hzip, totalBytes, returned, List.filter_map, List.map_map, List.filter_filter]
  simp only [Function.comp_def, Wc.request, hreturn]

theorem agree_iff (hstart : e.returned.map (·.request) <+: e.sent) : e.Agree ↔ e.Tallies := by
  have hread := postedBytes_eq .rdmaRead hstart nofun
  have hwrite := postedBytes_eq .rdmaWrite hstart nofun
  constructor
  · intro h op hop
    cases op with
    | rdmaRead => exact ⟨h.readBytes.trans hread, h.readMsgs⟩
    | rdmaWrite => exact ⟨h.writeBytes.trans hwrite, h.writeMsgs⟩
    | recv => exact ⟨h.recvBytes, h.recvMsgs⟩
    | _ => simp [WcOpcode.isRdma] at hop
  · intro h
    have hr := h .rdmaRead (.inl rfl)
    have hw := h .rdmaWrite (.inl rfl)
    have hv := h .recv (.inr rfl)
    exact ⟨hr.bytes.trans hread.symm, hr.msgs, hw.bytes.trans hwrite.symm, hw.msgs, hv.bytes,
      hv.msgs⟩

end Endpoint

/-- What a turn of the poll loop adds to `stats`. -/
theorem ServerTurn.stats {cb : IbContext} {wc : Wc} {ret : Int} {d : Drained} {op : WcOpcode}
    (h : ServerTurn cb wc ret d) (hop : op ≠ .other) :
    d.cb.stats.bytes op =
        cb.stats.bytes op + (if wc.succeeds op then (cb.counted op).setWidth 64 else 0) ∧
      d.cb.stats.msgs op = cb.stats.msgs op + if wc.succeeds op then 1 else 0 := by
  cases h with
  | flushed hst => simp [Wc.succeeds, hst]
  | failed hst => simp [Wc.succeeds, hst, gotoError]
  | sent hst hop' | written hst hop' | read hst hop' | malformed hst hop' =>
      cases op <;> simp [Wc.succeeds, hst, hop', Stats.bytes, Stats.msgs, IbContext.counted,
        gotoError, countRecv]
  | notReposted hst hop' | decoded hst hop' =>
      cases op <;> simp [Wc.succeeds, hst, hop', Stats.bytes, Stats.msgs, IbContext.counted,
        gotoError, countRecv, decode]
  | unexpected hst hop' => cases op <;> simp_all [Wc.succeeds, gotoError]

theorem counted_inj {x y : BitVec 32} (h : x.setWidth 64 = y.setWidth 64) : x = y := by
  have htoNat := congrArg BitVec.toNat h
  rw [BitVec.toNat_setWidth, BitVec.toNat_setWidth] at htoNat
  exact BitVec.eq_of_toNat_eq (by omega)

namespace Endpoint
variable {e e' : Endpoint} {op : WcOpcode} {l : EpLabel}

/-- A poll keeps the tally exactly when the completion has the length that
is added for it. -/
theorem Tallied.poll {wc : Wc} {ret : Int} {d : Drained} (h : Tallied op e) (hop : op ≠ .other)
    (ht : ServerTurn e.cb wc ret d) (hcb : e'.cb = d.cb) (hlog : e'.log = .handled wc :: e.log) :
    Tallied op e' ↔ (wc.succeeds op = true → wc.byteLen = e.cb.counted op) := by
  obtain ⟨hbytes, hmsgs⟩ := ht.stats hop
  have hpolled : e'.polled = e.polled ++ [wc] := polled_handled hlog
  have hmsgs' : e'.cb.stats.msgs op = BitVec.ofNat 64 (e'.successes op) := by
    rw [hcb, hmsgs, h.msgs, successes, successes, hpolled, List.countP_append]
    cases hs : wc.succeeds op <;> simp [hs, BitVec.ofNat_add]
  rw [← hcb, h.bytes] at hbytes
  constructor
  · intro h' hs
    have heq := hbytes.symm.trans h'.bytes
    rw [hpolled, totalBytes_concat, if_pos hs, if_pos hs] at heq
    exact (counted_inj ((BitVec.add_right_inj _).mp heq)).symm
  · intro hlen
    refine ⟨?_, hmsgs'⟩
    rw [hbytes, hpolled, totalBytes_concat]
    by_cases hs : wc.succeeds op = true
    · rw [if_pos hs, if_pos hs, hlen hs]
    · rw [if_neg hs, if_neg hs]

/-- The other moves leave `stats` alone. -/
theorem step_stats (hp : ∀ ret, l ≠ .cqPoll ret) (h : e.step serverHook l = some e') :
    e'.cb.stats = e.cb.stats ∧ e'.polled = e.polled := by
  by_cases hcm : ∃ event id ret, l = .cm event id ret
  · obtain ⟨event, id, ret, rfl⟩ := hcm
    simp only [step, Option.some.injEq] at h
    subst h
    constructor
    · cases event with
      | established =>
          simp only [cm, cmaEventHandler]
          split <;> rfl
      | _ => rfl
    · by_cases hreq : event = .connectRequest <;> simp [polled, cm, hreq, Obs.handled?]
  push Not at hcm
  by_cases hpe : l = .cqPollErr
  · subst hpe
    obtain ⟨-, rfl⟩ := step_cqPollErr h
    exact ⟨rfl, rfl⟩
  · obtain ⟨⟨buf, hcb⟩, hlog⟩ := step_cb h hcm hp hpe
    rw [polled, polled, hlog, hcb]
    exact ⟨rfl, rfl⟩

theorem Tallies.congr (hst : e'.cb.stats = e.cb.stats) (hpolled : e'.polled = e.polled) :
    e'.Tallies ↔ e.Tallies := by
  have hboth : ∀ op, e'.Tallied op ↔ e.Tallied op := by
    intro op
    constructor
    · rintro ⟨hbytes, hmsgs⟩
      exact ⟨by rw [← hst, hbytes, hpolled], by rw [← hst, hmsgs, successes, hpolled, successes]⟩
    · rintro ⟨hbytes, hmsgs⟩
      exact ⟨by rw [hst, hbytes, hpolled], by rw [hst, hmsgs, successes, successes, hpolled]⟩
  exact forall₂_congr fun op _ => hboth op

/-- **One move of the end.** -/
theorem tallies_step (hsrv : e.cb.server ≠ 0) (h : e.step serverHook l = some e')
    (ht : e.Tallies) : e'.Tallies ↔ e.Counted l := by
  by_cases hp : ∃ ret, l = .cqPoll ret
  · obtain ⟨ret, rfl⟩ := hp
    obtain ⟨-, ⟨hq, rfl⟩ | ⟨wc, rest, hq, he'⟩⟩ := step_poll h
    · have hcount : e.Counted (.cqPoll ret) := by
        intro wc hwc
        rw [hq] at hwc
        cases hwc
      have hsame : Tallies { e with draining := false } ↔ e.Tallies := Tallies.congr rfl rfl
      exact hsame.trans (iff_of_true ht hcount)
    · have hturn := drainOne_turn hsrv wc ret
      have hcb : e'.cb = (drainOne serverHook e.cb wc ret).cb := by rw [he']
      have hlog : e'.log = .handled wc :: e.log := by rw [he']
      have hpoll : ∀ op, WcOpcode.isRdma op = true ∨ op = .recv →
          (e'.Tallied op ↔ (wc.succeeds op = true → wc.byteLen = e.cb.counted op)) := by
        rintro op hop
        refine (ht op hop).poll ?_ hturn hcb hlog
        rintro rfl
        simp [WcOpcode.isRdma] at hop
      have hrdma : ∀ op, WcOpcode.isRdma op = true → e.cb.counted op = e.cb.rdmaSgl.length := by
        intro op hop
        cases op <;> first | rfl | cases hop
      simp only [Tallies, forall₂_congr hpoll, Counted, hq, List.head?_cons, Option.mem_some_iff,
        forall_eq', Wc.succeeds, Bool.and_eq_true, beq_iff_eq]
      constructor
      · intro hall hst
        refine ⟨fun hop => ?_, fun hop => hall .recv (.inr rfl) ⟨hst, hop⟩⟩
        rw [hall wc.opcode (.inl hop) ⟨hst, rfl⟩, hrdma _ hop]
      · rintro hcount op hop ⟨hst, rfl⟩
        rcases hop with hop | hop
        · rw [(hcount hst).1 hop, hrdma _ hop]
        · rw [(hcount hst).2 hop, hop]
          rfl
  · push Not at hp
    obtain ⟨hst, hpolled⟩ := step_stats hp h
    rw [Tallies.congr hst hpolled]
    refine iff_of_true ht ?_
    cases l with
    | cqPoll ret => exact absurd rfl (hp ret)
    | _ => trivial

end Endpoint

namespace ServerConfig

/-! ## Whole runs -/

/-- The steps after which the statistics still agree. -/
def Counted (c : ServerConfig) : ServerLabel → Prop
  | .ep l => c.ep.Counted l
  | .main _ | .move | .reuse _ => True

instance (c : ServerConfig) : (l : ServerLabel) → Decidable (c.Counted l)
  | .ep l => inferInstanceAs (Decidable (c.ep.Counted l))
  | .main _ | .move | .reuse _ => .isTrue trivial

section Runs
variable {N : Nat} {c c' : ServerConfig} {l : ServerLabel}

theorem serverMain_stats {len : Option Nat} {inp : MainIn} {cb cb' : IbContext}
    {pc pc' : ServerPc} {call : Call} (hm : serverMain N len inp cb pc = some (cb', pc', call)) :
    cb'.stats = cb.stats := by
  cases serverMain_move hm <;> rfl

theorem agree_step (hsrv : c.ep.cb.server ≠ 0) (hord : Ordered c) (hs : c.step N l = some c')
    (h : c.ep.Agree) : c'.ep.Agree ↔ c.Counted l := by
  have hstart : ∀ {a : ServerConfig}, Ordered a → a.ep.returned.map (·.request) <+: a.ep.sent :=
    fun ha => (List.prefix_append _ _).trans ha.start
  rw [Endpoint.agree_iff (hstart (hord.step hs))]
  rw [Endpoint.agree_iff (hstart hord)] at h
  cases l with
  | main inp =>
      obtain ⟨cb, call, hm, hcall, -, -⟩ := step_main_call hs
      have hst : c'.ep.cb.stats = c.ep.cb.stats := by
        rw [Endpoint.call_cb hcall]
        exact serverMain_stats hm
      rw [Endpoint.Tallies.congr hst (Endpoint.call_order hcall).1]
      exact iff_of_true h trivial
  | move =>
      obtain ⟨p, rest, -, -, -, hep, -⟩ := step_move hs
      have hst : c'.ep.cb.stats = c.ep.cb.stats := by rw [hep]
      have hpolled : c'.ep.polled = c.ep.polled := by rw [Endpoint.polled, hep, Endpoint.polled]
      rw [Endpoint.Tallies.congr hst hpolled]
      exact iff_of_true h trivial
  | ep l =>
      obtain ⟨-, ep, he, rfl⟩ := step_ep hs
      exact Endpoint.tallies_step hsrv he h
  | reuse mem =>
      obtain ⟨-, rfl⟩ := step_reuse hs
      exact iff_of_true h trivial

end Runs

/-- **The statistics agree with the traffic all along a run exactly when
each completion polled has the length that is added for it.** -/
theorem agree_iff_counted {N : Nat} {host : Endian} {size : Nat} {mem : List Byte}
    {remote : BitVec 64 → Byte} {p : List (ServerLabel × ServerConfig)}
    (hp : Path (step N) (init host size mem remote) p) :
    (∀ c ∈ states (init host size mem remote) p, c.ep.Agree) ↔
      ∀ t ∈ steps (init host size mem remote) p, t.1.Counted t.2.1 := by
  have hbase : ∀ c ∈ states (init host size mem remote) p, c.ep.cb.server ≠ 0 ∧ Ordered c := by
    refine hp.invariant (Q := fun _ => True) (fun _ _ => trivial)
      ⟨show (1 : Int) ≠ 0 by decide, fun _ => rfl, List.prefix_rfl⟩ ?_
    intro a l b _ ha hs
    exact ⟨by rw [step_server hs]; exact ha.1, ha.2.step hs⟩
  refine hp.forall_states_iff hbase ⟨rfl, rfl, rfl, rfl, rfl, rfl⟩ ?_
  intro a l b ha hs h
  exact agree_step ha.1 ha.2 hs h

/-- Two prompt iterations, with an advertisement for each. -/
theorem agree_startup :
    ∃ p, Path (step 2) boot p ∧ (last boot p).ep.cb.stats.readMsgs = 2 ∧
      ∀ c ∈ states boot p, c.ep.Agree :=
  ⟨trace (step 2) boot (startup ⟨0, 0, 1⟩ ++ twoTurns.tail), path_trace _ _, by decide,
    (agree_iff_counted (path_trace _ _)).mpr (by decide)⟩

/-- Two bytes are advertised, and hold a string of one: the READ of the
second iteration is posted with 2 bytes, and its completion is polled
after `megaVM_rdma_write` has written 1 into `rdma_sgl`. -/
def staleLengthRun : List ServerLabel :=
  startup ⟨0, 0, 2⟩ ++ [.main .ok, .main .ok, .move, .move, .ep .complete, .ep .cqEnter,
    .ep (.cqPoll 0), .ep (.cqPoll 0), .main .ok] ++ promptOp ++
    [.main .ok, .main .ok, .main .ok, .main .ok, .move, .move, .ep .complete, .ep .cqEnter,
      .ep (.cqPoll 0), .ep (.cqPoll 0)]

theorem not_agree :
    ¬ ∀ p, Path (step 10) boot p → (∀ t ∈ steps boot p, Healthy t.1 t.2.1) →
      ∀ c ∈ states boot p, c.ep.draining = false → c.ep.Agree := by
  intro hall
  have hrun := hall _ (path_trace boot staleLengthRun) (by decide)
  have hlast := hrun _ (last_mem_states boot _) (by decide)
  exact absurd hlast.readBytes (by decide)

end ServerConfig

end MegaVM
