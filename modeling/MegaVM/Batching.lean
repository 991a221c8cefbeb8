import MegaVM.Handlers

/-!
# Batches of completions

One invocation of `megaVM_cq_event_handler` on the completions that are in
the queue, with everything it leaves behind: the control block, the
receives it has re-posted and the completions it has not polled. An
invocation after a `goto error` finds `ERROR` at its entry and polls
nothing, and no turn of the loop that goes on writes `ERROR`; so the
handler is a fold over the completions, and where one invocation ends and
the next begins makes no difference.
-/

namespace MegaVM

open TestState

/-- The handler between two invocations. -/
structure Invoked where
  cb : IbContext
  /-- Receives re-posted so far. -/
  reposted : Nat
  /-- Completions in the queue, oldest first. -/
  left : List Poll
  deriving DecidableEq, Repr

namespace Invoked

/-- Nothing has been polled. -/
def fresh (cb : IbContext) : Invoked := ⟨cb, 0, []⟩

/-- The `while` loop; `ib_poll_cq` returns 0 on the empty queue. -/
def pollLoop (hook : RecvHook) : List Poll → IbContext → Nat → Invoked
  | [], cb, reposted => ⟨cb, reposted, []⟩
  | p :: ps, cb, reposted =>
      let d := drainOne hook { cb with recvBuf := p.buf } p.wc p.ret
      let reposted := if d.reposted then reposted + 1 else reposted
      -- `goto error` leaves the completions behind it unpolled
      if d.stop then ⟨d.cb, reposted, ps⟩ else pollLoop hook ps d.cb reposted

/-- One invocation, after `batch` has been added to the queue. -/
def invoke (hook : RecvHook) (s : Invoked) (batch : List Poll) : Invoked :=
  let queue := s.left ++ batch
  -- the handler returns before `ib_req_notify_cq`
  if s.cb.state = error then { s with left := queue } else pollLoop hook queue s.cb s.reposted

/-- What becomes of one completion: it stays in the queue in state `ERROR`,
and is polled in any other. -/
def take (hook : RecvHook) (s : Invoked) (p : Poll) : Invoked :=
  if s.cb.state = error then { s with left := s.left ++ [p] }
  else
    let d := drainOne hook { s.cb with recvBuf := p.buf } p.wc p.ret
    { s with cb := d.cb, reposted := if d.reposted then s.reposted + 1 else s.reposted }

end Invoked

/-! ## The turns of the loop and `ERROR` -/

/-- The function for received messages does not write `ERROR`. -/
def RecvHook.SparesError (hook : RecvHook) : Prop :=
  ∀ cb wc, cb.state ≠ error → (hook cb wc).1.state ≠ error

theorem serverHook_sparesError : serverHook.SparesError := by
  intro cb wc h
  unfold serverHook serverRecv
  split
  · split
    · exact h
    · dsimp only
      split <;> nofun
  · exact h

theorem clientHook_sparesError : clientHook.SparesError := by
  intro cb wc h
  unfold clientHook clientRecv
  split
  · split
    · exact h
    · dsimp only
      split <;> nofun
  · exact h

/-- A turn is the last one exactly when it leaves `ERROR` behind. -/
theorem drainOne_stop_iff {hook : RecvHook} (hh : hook.SparesError) {cb : IbContext}
    (hst : cb.state ≠ error) (wc : Wc) (ret : Int) :
    (drainOne hook cb wc ret).stop = true ↔ (drainOne hook cb wc ret).cb.state = error := by
  unfold drainOne
  cases wc.status with
  | wrFlushErr => exact iff_of_false nofun hst
  | failure => exact iff_of_true rfl rfl
  | success =>
      cases wc.opcode with
      | send => exact iff_of_false nofun hst
      | rdmaWrite => exact iff_of_false nofun nofun
      | rdmaRead => exact iff_of_false nofun nofun
      | other => exact iff_of_true rfl rfl
      | recv =>
          dsimp only
          split
          · exact iff_of_true rfl rfl
          · split
            · exact iff_of_true rfl rfl
            · exact iff_of_false nofun (hh _ wc hst)

namespace Invoked

/-! ## One invocation is a fold -/

section
variable {hook : RecvHook} {s : Invoked}

/-- In state `ERROR` everything stays in the queue. -/
theorem foldl_take_error (hst : s.cb.state = error) (ps : List Poll) :
    ps.foldl (take hook) s = { s with left := s.left ++ ps } := by
  induction ps generalizing s with
  | nil => rw [List.foldl_nil, List.append_nil]
  | cons p ps ih =>
      have htake : take hook s p = { s with left := s.left ++ [p] } := if_pos hst
      rw [List.foldl_cons, htake, ih (s := { s with left := s.left ++ [p] }) hst,
        List.append_assoc]
      rfl

theorem pollLoop_eq_foldl (hh : hook.SparesError) {cb : IbContext} (hst : cb.state ≠ error)
    (ps : List Poll) (reposted : Nat) :
    pollLoop hook ps cb reposted = ps.foldl (take hook) ⟨cb, reposted, []⟩ := by
  induction ps generalizing cb reposted with
  | nil => rfl
  | cons p ps ih =>
      have htake : take hook ⟨cb, reposted, []⟩ p =
          ⟨(drainOne hook { cb with recvBuf := p.buf } p.wc p.ret).cb,
            if (drainOne hook { cb with recvBuf := p.buf } p.wc p.ret).reposted
              then reposted + 1 else reposted, []⟩ := if_neg hst
      have hloaded : ({ cb with recvBuf := p.buf } : IbContext).state ≠ error := hst
      have hstop := drainOne_stop_iff hh hloaded p.wc p.ret
      rw [List.foldl_cons, htake, pollLoop]
      generalize drainOne hook { cb with recvBuf := p.buf } p.wc p.ret = d at hstop
      -- the turn that stops the loop leaves `ERROR`, in which `take` polls no more
      by_cases hlast : d.stop = true
      · rw [if_pos hlast, foldl_take_error (hstop.mp hlast), List.nil_append]
      · rw [if_neg hlast, ih (mt hstop.mpr hlast)]

/-- Completions are left in the queue in state `ERROR` only. -/
def Settled (s : Invoked) : Prop := s.cb.state = error ∨ s.left = []

theorem invoke_eq_foldl (hh : hook.SparesError) (hs : s.Settled) (batch : List Poll) :
    invoke hook s batch = batch.foldl (take hook) s := by
  rw [invoke]
  by_cases hst : s.cb.state = error
  · rw [if_pos hst, foldl_take_error hst]
  -- an invocation that polls finds nothing left over
  · have hleft : s.left = [] := hs.resolve_left hst
    obtain ⟨cb, reposted, left⟩ := s
    subst hleft
    rw [if_neg hst, List.nil_append, pollLoop_eq_foldl hh hst]

theorem Settled.take (hs : s.Settled) (p : Poll) : (Invoked.take hook s p).Settled := by
  rw [Invoked.take]
  split
  · exact .inl ‹_›
  · exact .inr (hs.resolve_left ‹_›)

theorem Settled.invoke (hh : hook.SparesError) (hs : s.Settled) (batch : List Poll) :
    (Invoked.invoke hook s batch).Settled := by
  rw [invoke_eq_foldl hh hs]
  induction batch generalizing s with
  | nil => exact hs
  | cons p ps ih => exact ih (hs.take p)

/-- An invocation for each batch is one for all of them. -/
theorem foldl_invoke (hh : hook.SparesError) (hs : s.Settled) (batches : List (List Poll)) :
    batches.foldl (invoke hook) s = invoke hook s batches.flatten := by
  rw [invoke_eq_foldl hh hs, List.foldl_flatten]
  -- by induction on the batches, as every one of them leaves a settled state
  induction batches generalizing s with
  | nil => rfl
  | cons batch batches ih =>
      rw [List.foldl_cons, List.foldl_cons, ← invoke_eq_foldl hh hs]
      exact ih (hs.invoke hh batch)

end

/-- The control block an invocation leaves is the handler's. -/
theorem invoke_cb (hook : RecvHook) (cb : IbContext) (ps : List Poll) :
    (invoke hook (fresh cb) ps).cb = cqEventHandler hook cb ps 0 := by
  have hloop : ∀ cb reposted, (pollLoop hook ps cb reposted).cb = drainLoop hook cb 0 ps := by
    induction ps with
    | nil => exact fun _ _ => rfl
    | cons p ps ih =>
        intro cb reposted
        rw [pollLoop, drainLoop]
        split
        · rfl
        · exact ih _ _
  unfold invoke cqEventHandler fresh
  by_cases hst : cb.state = error
  · rw [if_pos hst, if_pos hst]
  · rw [if_neg hst, if_neg hst]
    exact hloop cb 0

/-- **Batching does not matter**, to the server's handler or the client's:
control block, re-posted receives and unpolled completions are those of
one invocation for all completions. -/
theorem batching_independent (cb : IbContext) (batches : List (List Poll)) :
    batches.foldl (invoke serverHook) (fresh cb) = invoke serverHook (fresh cb) batches.flatten ∧
      batches.foldl (invoke clientHook) (fresh cb)
        = invoke clientHook (fresh cb) batches.flatten :=
  ⟨foldl_invoke serverHook_sparesError (.inr rfl) batches,
    foldl_invoke clientHook_sparesError (.inr rfl) batches⟩

end Invoked

end MegaVM
