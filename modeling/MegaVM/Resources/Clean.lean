import MegaVM.Resources.Balance
import MegaVM.Server.Isolation

/-!
# Which runs are balanced

A run is not clean as soon as a set-up function meets a failure it does
not expect: the `ERR_PTR` it takes for an object is used, or the two
mappings it made stay behind (`Clean.setUp_ok`). Otherwise the ledger
follows the program counter (`Owns`), and what decides is whether the
server destroys the ids it was given: it destroys the one it accepts
(`KidInv`).
-/

namespace MegaVM

open TestState
open Ledger (Op)

/-- A request is delivered. -/
def OwnerLabel.isRequest : OwnerLabel → Bool
  | .cm event _ _ => event == .connectRequest
  | _ => false

namespace Owner

/-- The ledger holds exactly what the program counter says, and the
pointers to it are good. -/
structure Owns {Pc : Type} (live : Pc → List Kind) (c : Owner Pc) : Prop where
  objs : c.objs = ⟨live c.side.pc, 0⟩
  good : c.ptrs.Good (live c.side.pc)

section Generic
variable {Pc : Type} [DecidableEq Pc] {P : Program Pc} {c c' : Owner Pc} {l : OwnerLabel}
  {s : Owner Pc} {p : List (OwnerLabel × Owner Pc)}

/-- The handlers acquire and release nothing. -/
theorem Owns.handler {live : Pc → List Kind} (h : Owns live c)
    (hlive : ∀ pc, Kind.cq ∈ live pc → Kind.qp ∈ live pc)
    (hl : ∀ inp len out, l ≠ .main inp len out) (hs : step P c l = some c') : Owns live c' := by
  obtain ⟨hobjs, hgood⟩ := h
  cases l with
  | main inp len out => exact absurd rfl (hl inp len out)
  | cm event id ret =>
      obtain ⟨-, hside, hptrs, hobjs', -⟩ := step_cm hs
      constructor
      · rw [hobjs', hside, hobjs]
      · rw [hptrs, hside]
        exact hgood
  | cq polls pollRet =>
      obtain ⟨hcq, -, rfl⟩ := step_cq hs
      have hlcq : Kind.cq ∈ live c.side.pc := by
        rw [hobjs] at hcq
        exact hcq
      have hlqp := hlive _ hlcq
      obtain ⟨-, hpcq, hpqp⟩ := hgood.qp hlqp
      constructor
      · show c.objs.run _ = _
        rw [hobjs, Ledger.run_append, run_used hpcq hlcq, run_used hpqp hlqp]
      · exact hgood

/-- No step forgets a misuse. -/
theorem misuses_step (hs : step P c l = some c') :
    c.objs.misuses ≤ c'.objs.misuses ∧ c.kids.misuses ≤ c'.kids.misuses := by
  cases l with
  | main inp len out =>
      obtain ⟨-, -, hobjs, hkids, -⟩ := step_main hs
      rw [hobjs, hkids]
      exact ⟨Ledger.misuses_le_run _ _, Ledger.misuses_le_run _ _⟩
  | cm event id ret =>
      obtain ⟨-, -, -, hobjs, -, ⟨-, hkids, -⟩ | ⟨-, -, -, hkids, -⟩⟩ := step_cm hs
      · rw [hobjs, hkids]
        exact ⟨Nat.le_refl _, Nat.le_refl _⟩
      · rw [hobjs, hkids]
        exact ⟨Nat.le_refl _, Nat.le_refl _⟩
  | cq polls pollRet =>
      obtain ⟨-, -, rfl⟩ := step_cq hs
      exact ⟨Ledger.misuses_le_run _ _, Nat.le_refl _⟩

/-- A run that ends without a misuse has none on the way. -/
theorem no_misuse (hp : Runs.Path (step P) s p) (hend : (Runs.last s p).objs.misuses = 0) :
    ∀ a ∈ Runs.states s p, a.objs.misuses = 0 := by
  intro a ha
  have hle : a.objs.misuses ≤ (Runs.last s p).objs.misuses :=
    (hp.reach_last a ha).invariant (P := fun b => a.objs.misuses ≤ b.objs.misuses)
      (Nat.le_refl _) fun _ _ _ hb _ hs => Nat.le_trans hb (misuses_step hs).1
  omega

/-- Nothing happens once the context is freed. -/
theorem step_freed (hthread : ∀ inp len cb, P.thread inp len cb P.freed = none)
    (hpc : c.side.pc = P.freed) : step P c l = none := by
  cases hs : step P c l with
  | none => rfl
  | some c' =>
      cases l with
      | main inp len out =>
          obtain ⟨ht, -⟩ := step_main hs
          rw [hpc, hthread] at ht
          cases ht
      | cm event id ret => exact absurd hpc (step_cm hs).1
      | cq polls pollRet => exact absurd hpc (step_cq hs).2.1

/-- A run of a module whose context could not be allocated is clean. -/
theorem clean_noContext {cb : IbContext} {pc : Pc}
    (hthread : ∀ inp len cb, P.thread inp len cb P.freed = none)
    (hp : Runs.Path (step P) (boot P cb pc .noContext) p) :
    Clean P (boot P cb pc .noContext) p := by
  cases hp with
  | nil => exact ⟨⟨rfl, rfl⟩, ⟨rfl, rfl⟩, fun t ht => absurd ht List.not_mem_nil⟩
  | cons hs _ =>
      rw [step_freed hthread rfl] at hs
      cases hs

/-- A run with an `ERR_PTR` for its cm id is not: the first statement
uses it. -/
theorem not_clean_noId {cb : IbContext} {pc : Pc} {code : Fin 4095} (hpc : pc ≠ P.freed)
    (hfirst : ∀ inp out q cb, (P.effect inp out q cb pc).objs = q.cmId.used .cmId)
    (hp : Runs.Path (step P) (boot P cb pc (.noId code)) p)
    (hend : (Runs.last (boot P cb pc (.noId code)) p).side.pc = P.freed) :
    ¬ Clean P (boot P cb pc (.noId code)) p := by
  intro hclean
  have hlast : (Runs.last (boot P cb pc (.noId code)) p).side.pc = pc ∧
        (Runs.last (boot P cb pc (.noId code)) p).ptrs.cmId = .err code ∨
      0 < (Runs.last (boot P cb pc (.noId code)) p).objs.misuses := by
    refine (hp.reach_last _ List.mem_cons_self).invariant
      (P := fun a => a.side.pc = pc ∧ a.ptrs.cmId = .err code ∨ 0 < a.objs.misuses)
      (.inl ⟨rfl, rfl⟩) ?_
    intro a l b ha _ hs
    rcases ha with ⟨hapc, haid⟩ | ha
    · cases l with
      | main inp len out =>
          obtain ⟨-, -, hobjs, -⟩ := step_main hs
          rw [hapc, hfirst, haid] at hobjs
          rw [hobjs]
          exact .inr (Nat.succ_pos _)
      | cm event id ret =>
          obtain ⟨-, hside, hptrs, -⟩ := step_cm hs
          exact .inl ⟨by rw [hside]; exact hapc, by rw [hptrs]; exact haid⟩
      | cq polls pollRet =>
          obtain ⟨-, -, rfl⟩ := step_cq hs
          exact .inl ⟨hapc, haid⟩
    · exact .inr (Nat.lt_of_lt_of_le ha (misuses_step hs).1)
  rcases hlast with ⟨hl, -⟩ | hl
  · exact hpc (hl.symm.trans hend)
  · exact absurd hclean.objs.2 (Nat.ne_of_gt hl)

/-- A statement of a set-up function that fails the way the function does
not expect spoils the run. -/
theorem Clean.setUp_ok (h : Clean P s p) (hp : Runs.Path (step P) s p)
    {t : Owner Pc × OwnerLabel × Owner Pc} (ht : t ∈ Runs.steps s p) {inp : MainIn}
    {len : Option Nat} {out : Outcomes} (hl : t.2.1 = .main inp len out) :
    let e := P.effect inp out t.1.ptrs t.1.side.cb t.1.side.pc
    .wild ∉ e.objs ∧ ∀ own, P.own t.1.side.pc = some own → .recvMap ∈ own →
      e.ret ≠ 0 → .acquire .recvMap ∈ e.objs → .release .recvMap ∈ e.objs := by
  intro e
  have hs := Runs.steps_mem_step hp ht
  rw [hl] at hs
  obtain ⟨-, -, hobjs, -⟩ := step_main hs
  constructor
  · intro hwild
    have hzero := no_misuse hp h.objs.2 t.2.2 (Runs.steps_mem_states ht).2
    have hpos : 0 < (t.1.objs.run e.objs).misuses := Ledger.misuses_pos_of_wild hwild
    rw [hobjs] at hzero
    exact absurd hzero (Nat.ne_of_gt hpos)
  · intro own hown hmem hret hacq
    by_contra hrel
    have hnone := (h.setUps t ht inp len out own hl hown).2 hret .recvMap hmem
    rw [hobjs] at hnone
    exact hnone (Ledger.mem_live_of_acquire hacq hrel)

end Generic

/-! ## The client -/

section Client
variable {c c' : Owner ClientPc} {inp : MainIn} {l : OwnerLabel}
  {p : List (OwnerLabel × Owner ClientPc)}

theorem clientThread_move (len : Option Nat) {cb cb' : IbContext} {pc pc' : ClientPc}
    (h : clientThread inp len cb pc = some (cb', pc')) :
    ∃ call, ClientMove inp cb pc cb' pc' call := by
  simp only [clientThread, Option.map_eq_some_iff, Prod.mk.injEq] at h
  obtain ⟨⟨cb₁, pc₁, call⟩, hm, rfl, rfl⟩ := h
  exact ⟨call, clientMain_move hm⟩

/-- The calls of `megaVM_setup_buffers` succeed in this step. -/
def ClientSetUpOk (c : Owner ClientPc) : OwnerLabel → Prop
  | .main _ _ out => c.side.pc = .setupBuffers → ClientBuffersOk out
  | .cm _ _ _ | .cq _ _ => True

instance (c : Owner ClientPc) : (l : OwnerLabel) → Decidable (ClientSetUpOk c l)
  | .main _ _ out => inferInstanceAs (Decidable (c.side.pc = .setupBuffers → ClientBuffersOk out))
  | .cm _ _ _ | .cq _ _ => .isTrue trivial

theorem Owns.client_step (h : Owns clientLive c) (hs : step clientProgram c l = some c')
    (hok : ClientSetUpOk c l) : Owns clientLive c' := by
  by_cases hl : ∃ inp len out, l = .main inp len out
  · obtain ⟨inp, len, out, rfl⟩ := hl
    obtain ⟨hthread, hptrs, hobjs, -⟩ := step_main hs
    obtain ⟨call, hmove⟩ := clientThread_move len hthread
    obtain ⟨hrun, hgood⟩ := clientEffect_run hmove rfl h.good hok
    constructor
    · rw [hobjs, h.objs]
      exact hrun
    · rw [hptrs]
      exact hgood
  · apply h.handler ?_ ?_ hs
    · intro pc hcq
      cases pc <;> first | exact List.mem_cons_self | simp [clientLive] at hcq ⊢
    · intro inp len out heq
      exact hl ⟨inp, len, out, heq⟩

/-- The set-up functions of the client are exact from one such state to
another. -/
theorem Owns.client_exact (h' : Owns clientLive c') (hs : step clientProgram c l = some c') :
    Exact clientProgram (c, l, c') := by
  intro inp len out own hl hown
  dsimp only at hl hown ⊢
  subst hl
  obtain ⟨hthread, -⟩ := step_main hs
  obtain ⟨call, hmove⟩ := clientThread_move len hthread
  rw [h'.objs]
  revert hown hmove
  generalize (clientProgram.effect inp out c.ptrs c.side.cb c.side.pc).ret = ret
  generalize c'.side.cb = cb'
  generalize c'.side.pc = pc'
  generalize c.side.pc = pc
  intro hown hmove
  cases hmove with
  | qpFailed hne | buffersFailed hne =>
      cases hown
      exact ⟨⟨fun hret => absurd hret hne,
        fun hall => absurd (hall _ List.mem_cons_self) (by decide)⟩, fun _ => by decide⟩
  | qpBuilt hret | buffersReady hret =>
      cases hown
      exact ⟨⟨fun _ => by decide, fun _ => hret⟩, fun hne => absurd hret hne⟩
  | _ => cases hown

theorem client_kids (hs : step clientProgram c l = some c')
    (h : c.listening = false ∧ c.kids = ⟨[], 0⟩) : c'.listening = false ∧ c'.kids = ⟨[], 0⟩ := by
  obtain ⟨hlis, hkids⟩ := h
  cases l with
  | main inp len out =>
      obtain ⟨-, -, -, hkids', -, hlis'⟩ := step_main hs
      rw [hkids', hlis', hlis, hkids]
      cases c.side.pc <;> exact ⟨rfl, rfl⟩
  | cm event id ret =>
      obtain ⟨-, -, -, -, hlis', ⟨-, hkids', -⟩ | ⟨-, hyes, -⟩⟩ := step_cm hs
      · exact ⟨hlis'.trans hlis, hkids'.trans hkids⟩
      · rw [hlis] at hyes
        cases hyes
  | cq polls pollRet =>
      obtain ⟨-, -, rfl⟩ := step_cq hs
      exact ⟨hlis, hkids⟩

/-- **The client with a context and a cm id.** -/
theorem client_clean_iff {cb : IbContext}
    (hp : Runs.Path (step clientProgram) (boot clientProgram cb .resolveAddr .ready) p)
    (hend : (Runs.last (boot clientProgram cb .resolveAddr .ready) p).side.pc = .freed) :
    Clean clientProgram (boot clientProgram cb .resolveAddr .ready) p ↔
      ∀ t ∈ Runs.steps (boot clientProgram cb .resolveAddr .ready) p, ClientSetUpOk t.1 t.2.1 := by
  constructor
  · intro hclean t ht
    cases hl : t.2.1 with
    | cm event id ret | cq polls pollRet => trivial
    | main inp len out =>
    intro hpc
    obtain ⟨hwild, hkeep⟩ := hclean.setUp_ok hp ht hl
    rw [hpc] at hwild hkeep
    by_contra hnot
    have hfail : out.getDmaMr ≠ none ∨ out.kmallocRdma = false ∨ out.kmallocStart = false := by
      simp only [ClientBuffersOk, not_and_or, Bool.not_eq_true] at hnot
      exact hnot
    rcases megaVMSetupBuffers_fails (p := t.1.ptrs) hfail with hw | ⟨hret, hacq, hrel⟩
    · exact hwild hw
    · exact hrel (hkeep _ rfl (by decide) hret hacq)
  · intro hok
    have howns : ∀ c ∈ Runs.states (boot clientProgram cb .resolveAddr .ready) p,
        Owns clientLive c := by
      refine hp.invariant_steps ⟨rfl, rfl, ⟨rfl, rfl, rfl, rfl⟩, nofun, nofun, nofun⟩ ?_
      intro t ht h
      exact h.client_step (Runs.steps_mem_step hp ht) (hok t ht)
    have hkids := (hp.reach_last _ List.mem_cons_self).invariant
      (P := fun c => c.listening = false ∧ c.kids = ⟨[], 0⟩) ⟨rfl, rfl⟩
      fun _ _ _ h _ hs => client_kids hs h
    refine ⟨?_, ?_, ?_⟩
    · rw [(howns _ (Runs.last_mem_states _ p)).objs, hend]
      exact ⟨rfl, rfl⟩
    · rw [hkids.2]
      exact ⟨rfl, rfl⟩
    · intro t ht
      exact (howns t.2.2 (Runs.steps_mem_states ht).2).client_exact (Runs.steps_mem_step hp ht)

end Client

/-! ## The server -/

section Server
variable {N : Nat} {c c' : Owner ServerPc} {inp : MainIn} {len : Option Nat}
  {l : OwnerLabel} {s : Owner ServerPc} {p : List (OwnerLabel × Owner ServerPc)}

theorem serverThread_eq_some {cb cb' : IbContext} {pc pc' : ServerPc}
    (h : serverThread N inp len cb pc = some (cb', pc')) :
    ∃ call, serverMain N len inp cb pc = some (cb', pc', call) := by
  simp only [serverThread, Option.map_eq_some_iff, Prod.mk.injEq] at h
  obtain ⟨⟨cb₁, pc₁, call⟩, hm, rfl, rfl⟩ := h
  exact ⟨call, hm⟩

/-- The calls of `setup_pd_and_qp` and `setup_buffers` that these rely on
succeed in this step. -/
def ServerSetUpOk (c : Owner ServerPc) : OwnerLabel → Prop
  | .main _ _ out =>
      (c.side.pc = .setupQp → ServerQpOk out) ∧ (c.side.pc = .setupBuffers → ServerBuffersOk out)
  | .cm _ _ _ | .cq _ _ => True

instance (c : Owner ServerPc) : (l : OwnerLabel) → Decidable (ServerSetUpOk c l)
  | .main _ _ out => inferInstanceAs (Decidable
      ((c.side.pc = .setupQp → ServerQpOk out) ∧ (c.side.pc = .setupBuffers → ServerBuffersOk out)))
  | .cm _ _ _ | .cq _ _ => .isTrue trivial

theorem Owns.server_step (h : Owns serverLive c) (hs : step (serverProgram N) c l = some c')
    (hok : ServerSetUpOk c l) : Owns serverLive c' := by
  by_cases hl : ∃ inp len out, l = .main inp len out
  · obtain ⟨inp, len, out, rfl⟩ := hl
    obtain ⟨hthread, hptrs, hobjs, -⟩ := step_main hs
    obtain ⟨call, hm⟩ := serverThread_eq_some hthread
    obtain ⟨hqp, hbuf⟩ := hok
    obtain ⟨hrun, hgood⟩ := serverEffect_run (serverMain_move hm) rfl h.good hqp hbuf
    constructor
    · rw [hobjs, h.objs]
      exact hrun
    · rw [hptrs]
      exact hgood
  · apply h.handler ?_ ?_ hs
    · intro pc hcq
      cases pc <;> first | exact List.mem_cons_self | simp [serverLive] at hcq ⊢
    · intro inp len out heq
      exact hl ⟨inp, len, out, heq⟩

theorem Owns.server_exact (h' : Owns serverLive c')
    (hs : step (serverProgram N) c l = some c') : Exact (serverProgram N) (c, l, c') := by
  intro inp len out own hl hown
  dsimp only at hl hown ⊢
  subst hl
  obtain ⟨hthread, -⟩ := step_main hs
  obtain ⟨call, hm⟩ := serverThread_eq_some hthread
  have hmove := serverMain_move hm
  clear hm hthread hs
  rw [h'.objs]
  revert hown hmove
  generalize ((serverProgram N).effect inp out c.ptrs c.side.cb c.side.pc).ret = ret
  generalize c'.side.cb = cb'
  generalize c'.side.pc = pc'
  generalize c.side.pc = pc
  intro hown hmove
  cases hmove with
  | qpFailed hne | buffersFailed hne =>
      cases hown
      exact ⟨⟨fun hret => absurd hret hne,
        fun hall => absurd (hall _ List.mem_cons_self) (by decide)⟩, fun _ => by decide⟩
  | qpBuilt hret | buffersReady hret =>
      cases hown
      exact ⟨⟨fun _ => by decide, fun _ => hret⟩, fun hne => absurd hret hne⟩
  | _ => cases hown

/-! ### The child ids -/

/-- The requests delivered in a run. -/
def requests (p : List (OwnerLabel × Owner ServerPc)) : Nat := p.countP (·.1.isRequest)

/-- `bind_server` finds a request. -/
def Binds (c : Owner ServerPc) : OwnerLabel → Prop
  | .main _ _ _ => c.side.pc = .bindTest ∧ c.side.cb.state = connectRequest
  | .cm _ _ _ | .cq _ _ => False

instance (c : Owner ServerPc) : (l : OwnerLabel) → Decidable (Binds c l)
  | .main _ _ _ =>
      inferInstanceAs (Decidable (c.side.pc = .bindTest ∧ c.side.cb.state = connectRequest))
  | .cm _ _ _ | .cq _ _ => .isFalse id

/-- The main thread has destroyed its child id. -/
def Gave (c : Owner ServerPc) : Prop :=
  (c.side.pc = .destroyListener ∨ c.side.pc = .freed) ∧
    ∃ d ∈ c.born, c.kids.live = c.born.erase d

/-- What the server knows about the ids of its peers: all of them are
live, but for the one it has destroyed. -/
structure KidInv (c : Owner ServerPc) : Prop where
  misuses : c.kids.misuses = 0
  request : c.side.cb.state = connectRequest → c.side.cb.childCmId ∈ c.born
  session : InSession c.side.pc = true → c.side.cb.childCmId ∈ c.born
  live : c.kids.live = c.born ∨ Gave c

/-- In a session no id has been destroyed. -/
theorem KidInv.kept (h : KidInv c) (hpc : InSession c.side.pc = true) :
    c.kids.live = c.born := by
  refine h.live.resolve_right ?_
  rintro ⟨hgone | hgone, -⟩
  · rw [hgone] at hpc
    cases hpc
  · rw [hgone] at hpc
    cases hpc

/-- The CQ handler touches no child id and delivers no request. -/
theorem cqEventHandler_request (cb : IbContext) (polls : List Poll) (pollRet : Int) :
    (cqEventHandler serverHook cb polls pollRet).childCmId = cb.childCmId ∧
      ((cqEventHandler serverHook cb polls pollRet).state = connectRequest →
        cb.state = connectRequest) := by
  have hloop : (drainLoop serverHook cb pollRet polls).childCmId = cb.childCmId ∧
      ((drainLoop serverHook cb pollRet polls).state = connectRequest →
        cb.state = connectRequest) := by
    induction polls generalizing cb with
    | nil =>
        simp only [drainLoop]
        split
        · exact ⟨rfl, nofun⟩
        · exact ⟨rfl, id⟩
    | cons poll rest ih =>
        obtain ⟨hchild, hstate⟩ :=
          Endpoint.drainOne_request { cb with recvBuf := poll.buf } poll.wc poll.ret
        simp only [drainLoop]
        split
        · exact ⟨hchild, hstate⟩
        · obtain ⟨hchild', hstate'⟩ :=
            ih (drainOne serverHook { cb with recvBuf := poll.buf } poll.wc poll.ret).cb
          exact ⟨hchild'.trans hchild, fun hreq => hstate (hstate' hreq)⟩
  unfold cqEventHandler
  split
  · exact ⟨rfl, id⟩
  · exact hloop

/-- Other statements than the destruction of the child id only use it. -/
theorem serverEffect_kids {out : Outcomes} {p : Ptrs} {cb : IbContext} {pc : ServerPc}
    {live : List CmId} (hpc : pc ≠ .destroyChild)
    (hchild : InSession pc = true → cb.childCmId ∈ live) :
    (⟨live, 0⟩ : Ledger CmId).run (serverEffect inp out p cb pc).kids = ⟨live, 0⟩ := by
  cases pc with
  | destroyChild => exact absurd rfl hpc
  | setupQp | accept | disconnect =>
      have hmem := hchild rfl
      simp [serverEffect, Effect.of, Effect.setUp, Ledger.apply, hmem]
  | _ => rfl

theorem main_kids {out : Outcomes} (h : KidInv c) (hpc : c.side.pc ≠ .destroyChild)
    (hs : step (serverProgram N) c (.main inp len out) = some c') :
    c'.kids = c.kids ∧ c'.born = c.born := by
  obtain ⟨-, -, -, hkids, hborn, -⟩ := step_main hs
  refine ⟨?_, hborn⟩
  have hbefore : c.kids = ⟨c.kids.live, 0⟩ := by rw [← h.misuses]
  rw [hkids, hbefore]
  apply serverEffect_kids hpc
  intro hses
  rw [h.kept hses]
  exact h.session hses

theorem main_destroyChild {out : Outcomes} (h : KidInv c) (hpc : c.side.pc = .destroyChild)
    (hs : step (serverProgram N) c (.main inp len out) = some c') :
    c'.kids.misuses = 0 ∧ Gave c' := by
  obtain ⟨hthread, -, -, hkids, hborn, -⟩ := step_main hs
  obtain ⟨call, hm⟩ := serverThread_eq_some hthread
  have hmem : c.side.cb.childCmId ∈ c.born := h.session (by rw [hpc]; rfl)
  have hafter : c'.kids = ⟨c.born.erase c.side.cb.childCmId, 0⟩ := by
    have hbefore : c.kids = ⟨c.born, 0⟩ := by
      rw [← h.misuses, ← h.kept (by rw [hpc]; rfl)]
    rw [hkids, hbefore, hpc]
    show Ledger.apply ⟨c.born, 0⟩ (.release c.side.cb.childCmId) = _
    simp only [Ledger.apply, hmem, if_true]
  have hnext : c'.side.pc = .destroyListener := by
    rw [hpc, serverMain, Option.some.injEq, Prod.mk.injEq, Prod.mk.injEq] at hm
    exact hm.2.1.symm
  exact ⟨by rw [hafter], .inl hnext, c.side.cb.childCmId, by rw [hborn]; exact hmem,
    by rw [hafter, hborn]⟩

/-- A destroyed id stays destroyed. -/
theorem Gave.step (h : Gave c) (hinv : KidInv c)
    (hs : step (serverProgram N) c l = some c') : Gave c' := by
  obtain ⟨hgone, d, hd, hlive⟩ := h
  cases l with
  | main inp len out =>
      have hpc : c.side.pc ≠ .destroyChild := by
        rcases hgone with hgone | hgone <;> rw [hgone] <;> nofun
      obtain ⟨hkids, hborn⟩ := main_kids hinv hpc hs
      obtain ⟨hthread, -⟩ := step_main hs
      obtain ⟨call, hm⟩ := serverThread_eq_some hthread
      have hnext : c'.side.pc = .freed := by
        rcases hgone with hgone | hgone <;> rw [hgone, serverMain] at hm
        · rw [Option.some.injEq, Prod.mk.injEq, Prod.mk.injEq] at hm
          exact hm.2.1.symm
        · cases hm
      exact ⟨.inr hnext, d, by rw [hborn]; exact hd, by rw [hkids, hborn]; exact hlive⟩
  | cm event id ret =>
      obtain ⟨-, hside, -, -, -, ⟨-, hkids, hborn⟩ | ⟨-, -, hid, hkids, hborn⟩⟩ := step_cm hs
      · exact ⟨by rw [hside]; exact hgone, d, by rw [hborn]; exact hd,
          by rw [hkids, hborn]; exact hlive⟩
      · refine ⟨by rw [hside]; exact hgone, d, ?_, ?_⟩
        · rw [hborn]
          exact List.mem_cons_of_mem _ hd
        · have hne : id ≠ d := by
            intro heq
            exact hid (heq ▸ hd)
          rw [hkids, hborn, hlive, List.erase_cons_tail (by simpa using hne)]
  | cq polls pollRet =>
      obtain ⟨-, -, rfl⟩ := step_cq hs
      exact ⟨hgone, d, hd, hlive⟩

/-- Outside the destruction of its child id the server loses none. -/
theorem kept_step (h : c.kids.live = c.born) (hinv : KidInv c)
    (hpc : ∀ inp len out, l = .main inp len out → c.side.pc ≠ .destroyChild)
    (hs : step (serverProgram N) c l = some c') : c'.kids.live = c'.born := by
  cases l with
  | main inp len out =>
      obtain ⟨hkids, hborn⟩ := main_kids hinv (hpc inp len out rfl) hs
      rw [hkids, hborn, h]
  | cm event id ret =>
      obtain ⟨-, -, -, -, -, ⟨-, hkids, hborn⟩ | ⟨-, -, -, hkids, hborn⟩⟩ := step_cm hs
      · rw [hkids, hborn, h]
      · rw [hkids, hborn, h]
  | cq polls pollRet =>
      obtain ⟨-, -, rfl⟩ := step_cq hs
      exact h

/-- The server has all child ids until it has given one up. -/
theorem KidInv.live_step (h : KidInv c) (hs : step (serverProgram N) c l = some c') :
    c'.kids.live = c'.born ∨ Gave c' := by
  rcases h.live with hkept | hgave
  · by_cases hdestroy : c.side.pc = .destroyChild ∧ ∃ inp len out, l = .main inp len out
    · obtain ⟨hpc, inp, len, out, rfl⟩ := hdestroy
      exact .inr (main_destroyChild h hpc hs).2
    · refine .inl (kept_step hkept h ?_ hs)
      exact fun inp len out hl hpc => hdestroy ⟨hpc, inp, len, out, hl⟩
  · exact .inr (hgave.step h hs)

theorem KidInv.step (h : KidInv c) (hs : step (serverProgram N) c l = some c') : KidInv c' := by
  have hphase := h.live_step hs
  cases l with
  | main inp len out =>
      obtain ⟨hthread, -, -, -, hborn, -⟩ := step_main hs
      obtain ⟨call, hm⟩ := serverThread_eq_some hthread
      obtain ⟨hchild, -, hstart, -⟩ := serverMain_session hm
      refine ⟨?_, ?_, ?_, hphase⟩
      · by_cases hpc : c.side.pc = .destroyChild
        · exact (main_destroyChild h hpc hs).1
        · rw [(main_kids h hpc hs).1]
          exact h.misuses
      · rw [serverMain_state hm, hchild, hborn]
        exact h.request
      · intro hpc
        rw [hchild, hborn]
        rcases hstart hpc with hpc | ⟨-, hreq⟩
        · exact h.session hpc
        · exact h.request hreq
  | cm event id ret =>
      obtain ⟨-, hside, -, -, -, ⟨hev, hkids, hborn⟩ | ⟨hev, -, -, hkids, hborn⟩⟩ := step_cm hs
      · obtain ⟨hchild, hstate⟩ := Endpoint.cmaEventHandler_request c.side.cb hev id ret
        refine ⟨by rw [hkids]; exact h.misuses, ?_, ?_, hphase⟩
        · rw [hside, hborn, hchild]
          intro hst
          exact h.request (hstate hst)
        · rw [hside, hborn, hchild]
          exact h.session
      -- a request: its id is the newest
      · subst hev
        refine ⟨by rw [hkids]; exact h.misuses, ?_, ?_, hphase⟩
        · rw [hside, hborn]
          intro _
          exact List.mem_cons_self
        · rw [hside, hborn]
          intro _
          exact List.mem_cons_self
  | cq polls pollRet =>
      obtain ⟨-, -, rfl⟩ := step_cq hs
      obtain ⟨hchild, hstate⟩ := cqEventHandler_request c.side.cb polls pollRet
      refine ⟨h.misuses, ?_, ?_, hphase⟩
      · intro hst
        show (cqEventHandler serverHook c.side.cb polls pollRet).childCmId ∈ c.born
        rw [hchild]
        exact h.request (hstate hst)
      · intro hpc
        show (cqEventHandler serverHook c.side.cb polls pollRet).childCmId ∈ c.born
        rw [hchild]
        exact h.session hpc

/-- The ids of a run are as many as the requests in it. -/
theorem born_length {c : Owner ServerPc} {p : List (OwnerLabel × Owner ServerPc)}
    (hp : Runs.Path (step (serverProgram N)) c p) :
    (Runs.last c p).born.length = c.born.length + requests p := by
  induction hp with
  | nil => rfl
  | @cons a b l p hs _ ih =>
      rw [Runs.last, ih, requests, requests, List.countP_cons]
      cases l with
      | main inp len out =>
          obtain ⟨-, -, -, -, hborn, -⟩ := step_main hs
          rw [hborn]
          simp [OwnerLabel.isRequest]
      | cm event id ret =>
          obtain ⟨-, -, -, -, -, ⟨hev, -, hborn⟩ | ⟨hev, -, -, -, hborn⟩⟩ := step_cm hs
          · rw [hborn]
            simp [OwnerLabel.isRequest, hev]
          · rw [hborn]
            simp [OwnerLabel.isRequest, hev]
            omega
      | cq polls pollRet =>
          obtain ⟨-, -, rfl⟩ := step_cq hs
          simp [OwnerLabel.isRequest]

/-- Once the server has found a request, it is in its session until it
has destroyed the id. -/
theorem gave_step (h : InSession c.side.pc = true ∨ Gave c) (hinv : KidInv c)
    (hs : step (serverProgram N) c l = some c') : InSession c'.side.pc = true ∨ Gave c' := by
  rcases h with hses | hgave
  · cases l with
    | main inp len out =>
        by_cases hpc : c.side.pc = .destroyChild
        · exact .inr (main_destroyChild hinv hpc hs).2
        · obtain ⟨hthread, -⟩ := step_main hs
          obtain ⟨call, hm⟩ := serverThread_eq_some hthread
          obtain ⟨-, hstay, -, -⟩ := serverMain_session hm
          refine .inl ((hstay hses).resolve_right ?_)
          intro hcall
          rw [hcall] at hm
          exact hpc (serverMain_move hm).destroys
    | cm event id ret =>
        obtain ⟨-, hside, -⟩ := step_cm hs
        rw [hside]
        exact .inl hses
    | cq polls pollRet =>
        obtain ⟨-, -, rfl⟩ := step_cq hs
        exact .inl hses
  · exact .inr (hgave.step hinv hs)

/-- Only the test of `bind_server` opens a session. -/
theorem binds_of_entering {t : Owner ServerPc × OwnerLabel × Owner ServerPc}
    (hs : step (serverProgram N) t.1 t.2.1 = some t.2.2)
    (hout : ¬ InSession t.1.side.pc = true) (hin : InSession t.2.2.side.pc = true) :
    Binds t.1 t.2.1 := by
  obtain ⟨c, l, c'⟩ := t
  cases l with
  | main inp len out =>
      obtain ⟨hthread, -⟩ := step_main hs
      obtain ⟨call, hm⟩ := serverThread_eq_some hthread
      obtain ⟨-, -, hstart, -⟩ := serverMain_session hm
      exact (hstart hin).resolve_left hout
  | cm event id ret =>
      obtain ⟨-, hside, -⟩ := step_cm hs
      rw [hside] at hin
      exact absurd hin hout
  | cq polls pollRet =>
      obtain ⟨-, -, hc⟩ := step_cq hs
      dsimp only at hc hin hout
      rw [hc] at hin
      exact absurd hin hout

/-- And it does. -/
theorem Binds.opens (h : Binds c l) (hs : step (serverProgram N) c l = some c') :
    InSession c'.side.pc = true := by
  cases l with
  | cm event id ret | cq polls pollRet => exact h.elim
  | main inp len out =>
  obtain ⟨hpc, hst⟩ := h
  obtain ⟨hthread, -⟩ := step_main hs
  obtain ⟨call, hm⟩ := serverThread_eq_some hthread
  rw [hpc, serverMain, Option.some.injEq, Prod.mk.injEq, Prod.mk.injEq] at hm
  rw [← hm.2.1, if_neg (not_not.mpr hst)]
  rfl

section
variable {host : Endian} {size : Nat} {s : Owner ServerPc}

theorem kidInv_states (hs : s = boot (serverProgram N) (.init host 1 size) .bindAddr .ready)
    (hp : Runs.Path (step (serverProgram N)) s p) : ∀ c ∈ Runs.states s p, KidInv c := by
  refine hp.invariant_steps (P := KidInv) ?_ ?_
  · rw [hs]
    exact ⟨rfl, nofun, nofun, .inl rfl⟩
  · intro t ht h
    exact h.step (Runs.steps_mem_step hp ht)

theorem born_last (hs : s = boot (serverProgram N) (.init host 1 size) .bindAddr .ready)
    (hp : Runs.Path (step (serverProgram N)) s p) :
    (Runs.last s p).born.length = requests p := by
  rw [born_length hp, hs]
  exact Nat.zero_add _

/-- A set-up call of a clean run has met no failure it does not clean up
after. -/
theorem serverSetUpOk_of_clean (hp : Runs.Path (step (serverProgram N)) s p)
    (hclean : Clean (serverProgram N) s p) :
    ∀ t ∈ Runs.steps s p, ServerSetUpOk t.1 t.2.1 := by
  intro t ht
  cases hl : t.2.1 with
  | cm event id ret | cq polls pollRet => trivial
  | main inp len out =>
  obtain ⟨hwild, hkeep⟩ := hclean.setUp_ok hp ht hl
  constructor
  · intro hpc
    rw [hpc] at hwild
    by_contra hnot
    have hfail : out.allocPd ≠ none ∨ out.createCq ≠ none := by
      simp only [ServerQpOk, not_and_or] at hnot
      exact hnot
    exact hwild (setupPdAndQp_wild hfail)
  · intro hpc
    rw [hpc] at hwild hkeep
    by_contra hnot
    have hfail : out.getDmaMr ≠ none ∨ out.kmallocRdma = false := by
      simp only [ServerBuffersOk, not_and_or, Bool.not_eq_true] at hnot
      exact hnot
    rcases setupBuffers_fails (p := t.1.ptrs) hfail with hw | ⟨hret, hacq, hrel⟩
    · exact hwild hw
    · exact hrel (hkeep _ rfl (by decide) hret hacq)

/-- A run that gives all child ids back has had no request, or one that
the session has bound. -/
theorem binds_of_released (hs : s = boot (serverProgram N) (.init host 1 size) .bindAddr .ready)
    (hp : Runs.Path (step (serverProgram N)) s p) (hempty : (Runs.last s p).kids.live = []) :
    requests p = 0 ∨ (requests p = 1 ∧ ∃ t ∈ Runs.steps s p, Binds t.1 t.2.1) := by
  have hinv := kidInv_states hs hp
  rw [← born_last hs hp]
  by_cases hsession : ∃ c ∈ Runs.states s p, InSession c.side.pc = true
  · have hstart : ¬ InSession s.side.pc = true := by
      rw [hs]
      nofun
    obtain ⟨t, ht, hout, hin⟩ := Runs.exists_entering
      (P := fun c : Owner ServerPc => InSession c.side.pc = true) hstart hsession
    have hbinds := binds_of_entering (Runs.steps_mem_step hp ht) hout hin
    rcases (hinv _ (Runs.last_mem_states s p)).live with hkept | ⟨-, d, hd, hgave⟩
    · exact .inl (by rw [← hkept, hempty]; rfl)
    · refine .inr ⟨?_, t, ht, hbinds⟩
      have hlen := List.length_erase_of_mem hd
      rw [← hgave, hempty] at hlen
      have hpos := List.length_pos_of_mem hd
      simp only [List.length_nil] at hlen
      omega
  · -- without a session nothing is given back
    have hkept : ∀ c ∈ Runs.states s p, c.kids.live = c.born := by
      refine hp.invariant_steps (P := fun c : Owner ServerPc => c.kids.live = c.born) ?_ ?_
      · rw [hs]
        rfl
      · intro t ht h
        have hmem := (Runs.steps_mem_states ht).1
        apply kept_step h (hinv _ hmem) ?_ (Runs.steps_mem_step hp ht)
        intro _ _ _ _ hpc
        exact hsession ⟨t.1, hmem, by rw [hpc]; rfl⟩
    left
    rw [← hkept _ (Runs.last_mem_states s p), hempty]
    rfl

/-- And the other way round: the session gives its one child id back. -/
theorem released_of_binds (hs : s = boot (serverProgram N) (.init host 1 size) .bindAddr .ready)
    (hp : Runs.Path (step (serverProgram N)) s p) (hend : (Runs.last s p).side.pc = .freed)
    (hreqs : requests p = 0 ∨ (requests p = 1 ∧ ∃ t ∈ Runs.steps s p, Binds t.1 t.2.1)) :
    (Runs.last s p).kids.live = [] := by
  have hinv := kidInv_states hs hp
  rw [← born_last hs hp] at hreqs
  rcases hreqs with hnone | ⟨hone, t, ht, hbinds⟩
  · have hnil := List.length_eq_zero_iff.mp hnone
    rcases (hinv _ (Runs.last_mem_states s p)).live with hkept | ⟨-, d, hd, -⟩
    · rw [hkept, hnil]
    · rw [hnil] at hd
      cases hd
  · have hmem := (Runs.steps_mem_states ht).2
    have hreach := (hp.reach_last _ hmem).invariant
      (P := fun c => KidInv c ∧ (InSession c.side.pc = true ∨ Gave c))
      ⟨hinv _ hmem, .inl (hbinds.opens (Runs.steps_mem_step hp ht))⟩
      fun _ _ _ h _ hs => ⟨h.1.step hs, gave_step h.2 h.1 hs⟩
    have hgave : Gave (Runs.last s p) := by
      refine hreach.2.resolve_left ?_
      rw [hend]
      nofun
    obtain ⟨-, d, hd, hlive⟩ := hgave
    have hlen := List.length_erase_of_mem hd
    rw [← hlive, hone] at hlen
    exact List.length_eq_zero_iff.mp hlen

/-- **The server with a context and a cm id.** -/
theorem server_clean_iff
    (hs : s = boot (serverProgram N) (.init host 1 size) .bindAddr .ready)
    (hp : Runs.Path (step (serverProgram N)) s p) (hend : (Runs.last s p).side.pc = .freed) :
    Clean (serverProgram N) s p ↔
      (∀ t ∈ Runs.steps s p, ServerSetUpOk t.1 t.2.1) ∧
      (requests p = 0 ∨ (requests p = 1 ∧ ∃ t ∈ Runs.steps s p, Binds t.1 t.2.1)) := by
  constructor
  · intro hclean
    exact ⟨serverSetUpOk_of_clean hp hclean, binds_of_released hs hp hclean.kids.1⟩
  · rintro ⟨hok, hreqs⟩
    have howns : ∀ c ∈ Runs.states s p, Owns serverLive c := by
      refine hp.invariant_steps (P := Owns serverLive) ?_ ?_
      · rw [hs]
        exact ⟨rfl, rfl, ⟨rfl, rfl, rfl, rfl⟩, nofun, nofun, nofun⟩
      · intro t ht h
        exact h.server_step (Runs.steps_mem_step hp ht) (hok t ht)
    have hlast := Runs.last_mem_states s p
    refine ⟨?_, ⟨released_of_binds hs hp hend hreqs, (kidInv_states hs hp _ hlast).misuses⟩, ?_⟩
    · rw [(howns _ hlast).objs, hend]
      exact ⟨rfl, rfl⟩
    · intro t ht
      exact (howns t.2.2 (Runs.steps_mem_states ht).2).server_exact (Runs.steps_mem_step hp ht)

end

end Server

/-! ## Both sides -/

/-- `megaVM_doit` and `initialisation` after the calls that create the
context and its cm id. -/
def clientStart (host : Endian) (size : Nat) (b : Boot) : Owner ClientPc :=
  boot clientProgram (.init host 0 size) .resolveAddr b

def serverStart (N : Nat) (host : Endian) (size : Nat) (b : Boot) : Owner ServerPc :=
  boot (serverProgram N) (.init host 1 size) .bindAddr b

/-- **A run of the client that comes to its end is balanced exactly when
it has no context at all, or has a cm id and every call of
`megaVM_setup_buffers` succeeds; a run of the server, exactly when it has
no context, or has a cm id, the calls that report failure by an
`ERR_PTR` and `kmalloc` succeed, and at most one request is delivered, to
`bind_server`.** -/
theorem balanced_iff {N : Nat} {host : Endian} {size : Nat} {b b' : Boot}
    {p : List (OwnerLabel × Owner ClientPc)} {q : List (OwnerLabel × Owner ServerPc)}
    (hp : Runs.Path (step clientProgram) (clientStart host size b) p)
    (hpend : (Runs.last (clientStart host size b) p).side.pc = .freed)
    (hq : Runs.Path (step (serverProgram N)) (serverStart N host size b') q)
    (hqend : (Runs.last (serverStart N host size b') q).side.pc = .freed) :
    (Clean clientProgram (clientStart host size b) p ↔
      b = .noContext ∨ (b = .ready ∧
        ∀ t ∈ Runs.steps (clientStart host size b) p, ClientSetUpOk t.1 t.2.1)) ∧
    (Clean (serverProgram N) (serverStart N host size b') q ↔
      b' = .noContext ∨ (b' = .ready ∧
        (∀ t ∈ Runs.steps (serverStart N host size b') q, ServerSetUpOk t.1 t.2.1) ∧
        (requests q = 0 ∨ (requests q = 1 ∧
          ∃ t ∈ Runs.steps (serverStart N host size b') q, Binds t.1 t.2.1)))) := by
  constructor
  · cases b with
    | noContext => exact iff_of_true (clean_noContext (fun _ _ _ => rfl) hp) (.inl rfl)
    | noId code =>
        exact iff_of_false (not_clean_noId nofun (fun _ _ _ _ => rfl) hp hpend) (by simp)
    | ready =>
        rw [clientStart, client_clean_iff hp hpend]
        simp
  · cases b' with
    | noContext => exact iff_of_true (clean_noContext (fun _ _ _ => rfl) hq) (.inl rfl)
    | noId code =>
        exact iff_of_false (not_clean_noId nofun (fun _ _ _ _ => rfl) hq hqend) (by simp)
    | ready =>
        rw [server_clean_iff (s := serverStart N host size .ready) rfl hq hqend]
        simp

/-- A statement whose calls succeed. -/
def proceed : OwnerLabel := .main .ok none .ok

/-- The client up to `megaVM_setup_buffers`. -/
def clientUpToBuffers : List OwnerLabel :=
  [proceed, .cm .addrResolved 1 0, .cm .routeResolved 1 0, proceed, proceed, proceed]

/-- The server up to `setup_pd_and_qp`. -/
def serverUpToQp : List OwnerLabel :=
  [proceed, proceed, .cm .connectRequest 7 0, proceed, proceed]

/-- What is left for the client when `rdma_connect` fails, and for the
server when `rdma_accept` does. -/
def refused : List OwnerLabel :=
  [proceed, proceed, .main { MainIn.ok with ret := -22 } none .ok, proceed, proceed, proceed]

theorem balanced_refused :
    Clean clientProgram (clientStart .little 64 .ready)
      (Runs.trace (step clientProgram) (clientStart .little 64 .ready)
        (clientUpToBuffers ++ refused)) ∧
    Clean (serverProgram 10) (serverStart 10 .little 64 .ready)
      (Runs.trace (step (serverProgram 10)) (serverStart 10 .little 64 .ready)
        (serverUpToQp ++ proceed :: refused ++ [proceed])) :=
  have h := balanced_iff (Runs.path_trace _ _) (by decide) (Runs.path_trace _ _) (by decide)
  ⟨h.1.mpr (.inr ⟨rfl, by decide⟩), h.2.mpr (.inr ⟨rfl, by decide, .inr (by decide)⟩)⟩

/-- The calls of a set-up function with no memory left. -/
def noMemory : OwnerLabel := .main .ok none { Outcomes.ok with kmallocRdma := false }

/-- The calls of a set-up function when `ib_alloc_pd` fails with `ENOMEM`. -/
def noPd : OwnerLabel := .main .ok none { Outcomes.ok with allocPd := some 11, reqNotify := -12 }

/-- The client leaks two mappings when `kmalloc` fails, the server
deallocates the `ERR_PTR` of its protection domain. -/
theorem not_balanced :
    (¬ ∀ p, Runs.Path (step clientProgram) (clientStart .little 64 .ready) p →
      (Runs.last (clientStart .little 64 .ready) p).side.pc = .freed →
      Clean clientProgram (clientStart .little 64 .ready) p) ∧
    ¬ ∀ q, Runs.Path (step (serverProgram 10)) (serverStart 10 .little 64 .ready) q →
      (Runs.last (serverStart 10 .little 64 .ready) q).side.pc = .freed →
      Clean (serverProgram 10) (serverStart 10 .little 64 .ready) q := by
  constructor
  · intro hall
    have h := hall _ (Runs.path_trace _ (clientUpToBuffers ++ [noMemory, proceed, proceed]))
      (by decide)
    exact absurd h.objs (by decide)
  · intro hall
    have h := hall _ (Runs.path_trace _ (serverUpToQp ++ [noPd, proceed, proceed])) (by decide)
    exact absurd h.objs (by decide)

end Owner

end MegaVM
