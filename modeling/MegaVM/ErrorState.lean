import MegaVM.Lib.Runs
import MegaVM.Client.Program
import MegaVM.Server.Program

/-!
# The `ERROR` state

Both sides alone, against every order of CM events, invocations of the CQ
handler and statements of the main thread; an invocation of a handler is
one step. The CQ handler looks at `state` and leaves `ERROR` alone. The
CM handler does not look: four of its arms assign `state` whatever it
holds, and so does `megaVM_test_client`.

`Erases` names these assignments. `ERROR` is absorbing along a run
exactly when none of them is made in it (`error_absorbing_iff`).
-/

namespace MegaVM

open TestState

/-- What can happen at one side. -/
inductive SideLabel
  /-- A statement of the main thread; `len` is what `strlen` would find. -/
  | main (inp : MainIn) (len : Option Nat)
  | cm (event : CmEvent) (id : CmId) (ret : Int)
  | cq (polls : List Poll) (pollRet : Int)
  deriving DecidableEq, Repr

/-- One side: its control block and its main thread. -/
structure Side (Pc : Type) where
  cb : IbContext
  pc : Pc
  deriving DecidableEq, Repr

/-- A main thread as a side runs it: the next control block and program
counter. -/
abbrev Thread (Pc : Type) := MainIn → Option Nat → IbContext → Pc → Option (IbContext × Pc)

namespace Side

variable {Pc : Type} [DecidableEq Pc]

/-- One step of a side; nothing happens once the context is freed. -/
def step (hook : RecvHook) (thread : Thread Pc) (freed : Pc) (s : Side Pc) :
    SideLabel → Option (Side Pc)
  | .main inp len => (thread inp len s.cb s.pc).map fun r => ⟨r.1, r.2⟩
  | .cm event id ret =>
      if s.pc = freed then none
      else some { s with cb := (cmaEventHandler s.cb event id ret).1 }
  | .cq polls pollRet =>
      if s.pc = freed then none
      else some { s with cb := cqEventHandler hook s.cb polls pollRet }

/-- `ERROR` is absorbing along a run: every state after one in `ERROR` is
in `ERROR`. -/
def Absorbing (s : Side Pc) (p : List (SideLabel × Side Pc)) : Prop :=
  (Runs.states s p).Pairwise fun a b => a.cb.state = error → b.cb.state = error

end Side

/-- The arms of `megaVM_cma_event_handler` that assign a value other than
`ERROR`. -/
def Erases (cb : IbContext) (event : CmEvent) : Prop :=
  event = .addrResolved ∨ event = .routeResolved ∨ event = .connectRequest ∨
    (event = .established ∧ cb.server = 0)

instance (cb : IbContext) (event : CmEvent) : Decidable (Erases cb event) :=
  inferInstanceAs (Decidable (_ ∨ _ ∨ _ ∨ _))

/-- The CM handler keeps `ERROR` exactly in its other arms. -/
theorem cmaEventHandler_keeps_error {cb : IbContext} (h : cb.state = error) (event : CmEvent)
    (id : CmId) (ret : Int) :
    (cmaEventHandler cb event id ret).1.state = error ↔ ¬ Erases cb event := by
  cases event with
  | established => by_cases hs : cb.server = 0 <;> simp [cmaEventHandler, Erases, h, hs]
  | _ => simp [cmaEventHandler, Erases, h]

/-- The CQ handler returns at once in `ERROR`. -/
theorem cqEventHandler_keeps_error {hook : RecvHook} {cb : IbContext} (h : cb.state = error)
    (polls : List Poll) (pollRet : Int) : cqEventHandler hook cb polls pollRet = cb := by
  rw [cqEventHandler, if_pos h]

/-! ## The two sides -/

def serverThread (N : Nat) : Thread ServerPc := fun inp len cb pc =>
  (serverMain N len inp cb pc).map fun r => (r.1, r.2.1)

def clientThread : Thread ClientPc := fun inp _ cb pc =>
  (clientMain inp cb pc).map fun r => (r.1, r.2.1)

def serverSide (N : Nat) : Side ServerPc → SideLabel → Option (Side ServerPc) :=
  Side.step serverHook (serverThread N) .freed

def clientSide : Side ClientPc → SideLabel → Option (Side ClientPc) :=
  Side.step clientHook clientThread .freed

/-- The server's steps that do not overwrite `ERROR`. -/
def ServerKeeps (s : Side ServerPc) : SideLabel → Prop
  | .cm event _ _ => ¬ Erases s.cb event
  | .main _ _ | .cq _ _ => True

/-- The client's steps that do not overwrite `ERROR`. -/
def ClientKeeps (s : Side ClientPc) : SideLabel → Prop
  | .cm event _ _ => ¬ Erases s.cb event
  | .main _ _ => s.pc ≠ .testSet
  | .cq _ _ => True

instance (s : Side ServerPc) : (l : SideLabel) → Decidable (ServerKeeps s l)
  | .cm event _ _ => inferInstanceAs (Decidable (¬ Erases s.cb event))
  | .main _ _ | .cq _ _ => .isTrue trivial

instance (s : Side ClientPc) : (l : SideLabel) → Decidable (ClientKeeps s l)
  | .cm event _ _ => inferInstanceAs (Decidable (¬ Erases s.cb event))
  | .main _ _ => inferInstanceAs (Decidable (s.pc ≠ .testSet))
  | .cq _ _ => .isTrue trivial

section Step
variable {Pc : Type} [DecidableEq Pc] {hook : RecvHook} {thread : Thread Pc} {freed : Pc}
  {s s' : Side Pc} {l : SideLabel}

/-- Both handlers, at either side. -/
theorem handler_keeps_error (h : Side.step hook thread freed s l = some s')
    (he : s.cb.state = error) (hl : ∀ inp len, l ≠ .main inp len) :
    s'.cb.state = error ↔ ∀ event id ret, l = .cm event id ret → ¬ Erases s.cb event := by
  cases l with
  | main inp len => exact absurd rfl (hl inp len)
  | cm event id ret =>
      simp only [Side.step] at h
      split at h
      · cases h
      · cases h
        simp [cmaEventHandler_keeps_error he]
  | cq polls pollRet =>
      simp only [Side.step] at h
      split at h
      · cases h
      · cases h
        simp [cqEventHandler_keeps_error he, he]

end Step

/-- One step of the server from `ERROR`. -/
theorem serverSide_step {N : Nat} {s s' : Side ServerPc} {l : SideLabel}
    (h : serverSide N s l = some s') (he : s.cb.state = error) :
    s'.cb.state = error ↔ ServerKeeps s l := by
  cases l with
  | main inp len =>
      simp only [serverSide, Side.step, serverThread, Option.map_map,
        Option.map_eq_some_iff, Function.comp_apply] at h
      obtain ⟨⟨cb, pc, call⟩, hm, rfl⟩ := h
      simp [ServerKeeps, serverMain_state hm, he]
  | cm event id ret =>
      rw [handler_keeps_error h he nofun]
      simp [ServerKeeps]
  | cq polls pollRet =>
      rw [handler_keeps_error h he nofun]
      simp [ServerKeeps]

/-- One step of the client from `ERROR`. -/
theorem clientSide_step {s s' : Side ClientPc} {l : SideLabel}
    (h : clientSide s l = some s') (he : s.cb.state = error) :
    s'.cb.state = error ↔ ClientKeeps s l := by
  cases l with
  | main inp len =>
      simp only [clientSide, Side.step, clientThread, Option.map_map,
        Option.map_eq_some_iff, Function.comp_apply] at h
      obtain ⟨⟨cb, pc, call⟩, hm, rfl⟩ := h
      by_cases hpc : s.pc = .testSet <;> simp [ClientKeeps, clientMain_state hm, he, hpc]
  | cm event id ret =>
      rw [handler_keeps_error h he nofun]
      simp [ClientKeeps]
  | cq polls pollRet =>
      rw [handler_keeps_error h he nofun]
      simp [ClientKeeps]

/-! ## Runs -/

/-- A machine whose steps from `ERROR` stay there exactly when `keeps`
says so: `ERROR` is absorbing along a run exactly when every step from it
is such a step. -/
theorem absorbing_iff_of_step {Pc : Type} {step : Side Pc → SideLabel → Option (Side Pc)}
    {keeps : Side Pc → SideLabel → Prop}
    (hstep : ∀ s l s', step s l = some s' → s.cb.state = error →
      (s'.cb.state = error ↔ keeps s l))
    {s : Side Pc} {p : List (SideLabel × Side Pc)} (h : Runs.Path step s p) :
    Side.Absorbing s p ↔ ∀ t ∈ Runs.steps s p, t.1.cb.state = error → keeps t.1 t.2.1 := by
  rw [Side.Absorbing, h.absorbing_iff (P := fun a : Side Pc => a.cb.state = error)]
  constructor
  · intro hall t ht he
    exact (hstep _ _ _ (Runs.steps_mem_step h ht) he).mp (hall t ht he)
  · intro hall t ht he
    exact (hstep _ _ _ (Runs.steps_mem_step h ht) he).mpr (hall t ht he)

/-- **`ERROR` is absorbing along a run of the server exactly when no step
taken in it is an `ADDR_RESOLVED`, `ROUTE_RESOLVED` or `CONNECT_REQUEST`
event** (or an `ESTABLISHED` one, if the context is a client's), **and
along a run of the client exactly when none is one of these events or the
assignment of `megaVM_test_client`.** -/
theorem error_absorbing_iff {N : Nat} {s : Side ServerPc} {p : List (SideLabel × Side ServerPc)}
    {c : Side ClientPc} {q : List (SideLabel × Side ClientPc)}
    (hs : Runs.Path (serverSide N) s p) (hc : Runs.Path clientSide c q) :
    (Side.Absorbing s p ↔
      ∀ t ∈ Runs.steps s p, t.1.cb.state = error → ServerKeeps t.1 t.2.1) ∧
    (Side.Absorbing c q ↔
      ∀ t ∈ Runs.steps c q, t.1.cb.state = error → ClientKeeps t.1 t.2.1) :=
  ⟨absorbing_iff_of_step (fun _ _ _ => serverSide_step) hs,
    absorbing_iff_of_step (fun _ _ _ => clientSide_step) hc⟩

/-- Both sides before their first statement. -/
def serverBoot : Side ServerPc := ⟨.init .big 1 64, .bindAddr⟩

def clientBoot : Side ClientPc := ⟨.init .big 0 64, .resolveAddr⟩

/-- A statement whose call succeeds. -/
def go : SideLabel := .main .ok none

/-- The server up to the wait in `accept_connections`, where the
connection breaks. -/
def serverBroken : List SideLabel :=
  [go, go, .cm .connectRequest 7 0, go, go, go, go, go, go, .cm .disconnected 7 0]

/-- The client up to its last test for `ERROR`, after which the
connection breaks. -/
def clientBroken : List SideLabel :=
  [go, .cm .addrResolved 1 0, .cm .routeResolved 1 0, go, go, go, go, go, go,
    .cm .established 1 0, go, go, .cm .disconnected 1 0]

/-- After a disconnect the handlers, and the server's thread, keep `ERROR`. -/
theorem error_absorbing_broken :
    Side.Absorbing serverBoot (Runs.trace (serverSide 10) serverBoot
      (serverBroken ++ [.cq [⟨⟨.success, .recv, 16⟩, ⟨0, 0, 64⟩, 0⟩] 0, go, go])) ∧
    Side.Absorbing clientBoot (Runs.trace clientSide clientBoot
      (clientBroken ++ [.cq [⟨⟨.success, .recv, 16⟩, ⟨0, 0, 64⟩, 0⟩] 0])) :=
  have h := error_absorbing_iff (Runs.path_trace serverBoot _) (Runs.path_trace clientBoot _)
  ⟨h.1.mpr (by decide), h.2.mpr (by decide)⟩

/-- A second request erases the server's `ERROR`, and `megaVM_test_client`
the client's. -/
theorem not_error_absorbing :
    (¬ ∀ p, Runs.Path (serverSide 10) serverBoot p → Side.Absorbing serverBoot p) ∧
      ¬ ∀ q, Runs.Path clientSide clientBoot q → Side.Absorbing clientBoot q := by
  constructor
  · intro hall
    have h := hall _ (Runs.path_trace serverBoot (serverBroken ++ [.cm .connectRequest 8 0]))
    exact absurd h (by unfold Side.Absorbing; decide)
  · intro hall
    have h := hall _ (Runs.path_trace clientBoot (clientBroken ++ [go]))
    exact absurd h (by unfold Side.Absorbing; decide)

end MegaVM
