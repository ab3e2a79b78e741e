import GreenThreads.Web.Pump
import Mathlib.Logic.Function.Basic

/-!
# GreenThreads — runs of the write pumps

Every run of `Web.Pump`, whatever the order in which handlers, pumps, broadcasts and calls of
`closeClients` take their steps.

* `Moves` — what a step can do: clients only move on, and only a new one gets into the map;
* `delivery_exact` — what is on the wire is what was queued, in order, each message once;
* `teardown_joins_pump` — whoever has waited for a pump finds it gone for good;
* `teardown_not_stuck` — whoever waits for a pump can be let through.
-/

namespace GreenThreads.Web.Pumps

open Trans (Reach anyStep exec)

variable {α : Type*}

section

variable {s s' : Pumps α} {i : ConnID} {c' : ClientConn α}

/-- Nobody is in the map whose handler has not put it there or has taken it out, and the counter
of dropped messages is exact. -/
structure Inv (s : Pumps α) : Prop where
  client : ∀ i, (s.conns i).Inv (acceptedBy i s.log)
  dropped : s.broadcastDropped = s.log.countP fun o => !o.queued
  inMap : ∀ i ∈ s.clients, (s.conns i).handler.mayBeInMap = true

/-- The client has been in the map and will not be there again. -/
def Gone (s : Pumps α) (i : ConnID) : Prop := i ∉ s.clients ∧ (s.conns i).handler ≠ .upgraded

/-- What a step can do. -/
structure Moves (s s' : Pumps α) : Prop where
  conn : ∀ i, (s.conns i).Later (s'.conns i)
  clients : ∀ i ∈ s'.clients, i ∈ s.clients ∨ (s.conns i).handler = .upgraded

theorem Moves.refl (s : Pumps α) : s.Moves s := ⟨fun _ => .refl _, fun _ => Or.inl⟩

theorem Moves.trans {t : Pumps α} (h : s.Moves s') (h' : s'.Moves t) : s.Moves t where
  conn i := (h.conn i).trans (h'.conn i)
  clients i hi := by
    rcases h'.clients i hi with hold | hnew
    · exact h.clients i hold
    · -- a client that is not registered later was not registered before
      exact Or.inr (by_contra fun hreg => (h.conn i).registered hreg hnew)

theorem Moves.gone (h : s.Moves s') (hgone : s.Gone i) : s'.Gone i := by
  refine ⟨fun hmem => ?_, (h.conn i).registered hgone.2⟩
  rcases h.clients i hmem with hold | hnew
  · exact hgone.1 hold
  · exact hgone.2 hnew

/-- Who is in the hands of `closeClients`, and whom it has waited for. -/
structure Teardown (s : Pumps α) : Prop where
  closing : ∀ call ∈ s.closing, ∀ i ∈ call.2, s.Gone i
  /-- Past its first stage, `closeClients` has asked the pump to leave. -/
  asked : ∀ call ∈ s.closing, call.1 ≠ .shutdown → ∀ i ∈ call.2.head?,
    (s.conns i).stopOnce = true
  joined : ∀ i ∈ s.joined, s.Gone i ∧ (s.conns i).pump.isExited = true

/-- Client `i` becomes `c'`, and at most that client gets into the map. -/
theorem Moves.write (hconns : s'.conns = Function.update s.conns i c')
    (hlater : (s.conns i).Later c')
    (hclients : ∀ j ∈ s'.clients, j ∈ s.clients ∨ (s.conns j).handler = .upgraded) :
    s.Moves s' where
  conn j := by
    rw [hconns]
    by_cases hj : j = i
    · subst hj
      rwa [Function.update_self]
    · rw [Function.update_of_ne hj]
      exact .refl _
  clients := hclients

theorem Inv.write (h : s.Inv) (hconns : s'.conns = Function.update s.conns i c')
    (hlog : s'.log = s.log) (hdropped : s'.broadcastDropped = s.broadcastDropped)
    (hc : c'.Inv (acceptedBy i s.log)) (hclients : ∀ j ∈ s'.clients, j ≠ i → j ∈ s.clients)
    (hin : i ∈ s'.clients → c'.handler.mayBeInMap = true) : s'.Inv where
  client j := by
    rw [hconns, hlog]
    by_cases hj : j = i
    · subst hj
      rwa [Function.update_self]
    · rw [Function.update_of_ne hj]
      exact h.client j
  dropped := by rw [hdropped, hlog, h.dropped]
  inMap j hmem := by
    rw [hconns]
    by_cases hj : j = i
    · subst hj
      rw [Function.update_self]
      exact hin hmem
    · rw [Function.update_of_ne hj]
      exact h.inMap j (hclients j hmem hj)

/-! ### Sending -/

theorem enqueue_conns (s : Pumps α) (i j : ConnID) (msg : α) :
    ∃ q, (s.enqueue i msg).conns j = { s.conns j with sendCh := q } := by
  unfold enqueue
  split
  · next q hq =>
    by_cases hj : j = i
    · subst hj
      exact ⟨q, by simp [setConn]⟩
    · exact ⟨(s.conns j).sendCh, by simp [setConn, Function.update_of_ne hj]⟩
  · exact ⟨(s.conns j).sendCh, rfl⟩

@[simp] theorem enqueue_clients (s : Pumps α) (i : ConnID) (msg : α) :
    (s.enqueue i msg).clients = s.clients := by
  unfold enqueue
  split <;> rfl

@[simp] theorem enqueue_closing (s : Pumps α) (i : ConnID) (msg : α) :
    (s.enqueue i msg).closing = s.closing := by
  unfold enqueue
  split <;> rfl

@[simp] theorem enqueue_joined (s : Pumps α) (i : ConnID) (msg : α) :
    (s.enqueue i msg).joined = s.joined := by
  unfold enqueue
  split <;> rfl

theorem moves_enqueue (s : Pumps α) (i : ConnID) (msg : α) : s.Moves (s.enqueue i msg) where
  conn j := by
    obtain ⟨q, hq⟩ := s.enqueue_conns i j msg
    rw [hq]
    exact ⟨id, id, fun _ => ⟨rfl, rfl⟩⟩
  clients j hj := Or.inl (by simpa using hj)

theorem Inv.enqueue (h : s.Inv) (i : ConnID) (msg : α) : (s.enqueue i msg).Inv where
  client j := by
    unfold Pumps.enqueue
    split
    · next q hq =>
      show (Function.update s.conns i _ j).Inv (acceptedBy j (s.log ++ [⟨i, msg, true⟩]))
      rw [acceptedBy_append]
      by_cases hj : j = i
      · subst hj
        rw [Function.update_self, if_pos ⟨rfl, rfl⟩]
        exact (h.client j).offer hq
      · rw [Function.update_of_ne hj, if_neg fun hij => hj hij.1.symm, List.append_nil]
        exact h.client j
    · show (s.conns j).Inv (acceptedBy j (s.log ++ [⟨i, msg, false⟩]))
      rw [acceptedBy_append, if_neg (by simp), List.append_nil]
      exact h.client j
  dropped := by
    have hdropped := h.dropped
    unfold Pumps.enqueue
    split
    · show s.broadcastDropped = _
      simp [hdropped]
    · show s.broadcastDropped + 1 = _
      simp [hdropped]
  inMap j hj := by
    obtain ⟨q, hq⟩ := s.enqueue_conns i j msg
    rw [hq]
    exact h.inMap j (by simpa using hj)

/-! ### Steps -/

/-- A handler's step that changes its own client and at most takes it out of the map. -/
theorem handler_write (h : s.Inv) {c' : ClientConn α} (hc : c'.Inv (acceptedBy i s.log))
    (hlater : (s.conns i).Later c') {clients : Finset ConnID} (hsub : clients ⊆ s.clients)
    (hin : i ∈ clients → c'.handler.mayBeInMap = true) :
    ({ s with clients := clients }.setConn i c').Inv
      ∧ s.Moves ({ s with clients := clients }.setConn i c') :=
  ⟨h.write rfl rfl rfl hc (fun _ hj _ => hsub hj) hin,
    Moves.write rfl hlater fun _ hj => Or.inl (hsub hj)⟩

theorem handlerStep_inv (h : s.Inv) {e : HandlerEvent α}
    (hs : s.handlerStep i e (s.conns i).handler = some s') : s'.Inv ∧ s.Moves s' := by
  have hclient := h.client i
  have hmap : i ∈ s.clients → (s.conns i).handler.mayBeInMap = true := h.inMap i
  -- a step after which the handler is at `pc`, and nothing else of the client has changed
  have hmove : ∀ {pc : HandlerPc α}, (s.conns i).handler ≠ .upgraded →
      pc.beforePump = (s.conns i).handler.beforePump → pc ≠ .upgraded →
      (pc.afterShutdown = true → (s.conns i).stopOnce = true) →
      (pc = .ended → (s.conns i).pump.isExited = true) →
      (i ∈ s.clients → pc.mayBeInMap = true) →
      (s.setConn i { s.conns i with handler := pc }).Inv
        ∧ s.Moves (s.setConn i { s.conns i with handler := pc }) :=
    fun hold hpump hpc hshut hended hin =>
      handler_write h (hclient.handler hpump hpc hshut hended)
        ⟨fun _ => hpc, id, fun _ => ⟨rfl, rfl⟩⟩ (Finset.Subset.refl _) hin
  cases hpc : (s.conns i).handler with
  | upgraded =>
    rw [hpc] at hs
    cases hs
    refine ⟨h.write rfl rfl rfl ?_ (fun j hj hne => Finset.mem_of_mem_insert_of_ne hj hne)
      fun _ => rfl, Moves.write rfl ?_ ?_⟩
    · exact hclient.handler (by rw [hpc]; rfl) (by simp) (by simp [HandlerPc.afterShutdown])
        (by simp)
    · exact ⟨fun _ => by simp, id, fun _ => ⟨rfl, rfl⟩⟩
    · intro j hj
      rcases Finset.mem_insert.mp hj with rfl | hold
      · exact Or.inr hpc
      · exact Or.inl hold
  | registered =>
    rw [hpc] at hs
    cases hs
    have hunstarted : (s.conns i).pump = .unstarted := hclient.unstarted.mpr (by rw [hpc]; rfl)
    refine handler_write h ?_ ?_ (Finset.Subset.refl _) fun _ => rfl
    · exact { hclient with
        delivery := by
          have := hclient.delivery
          rwa [hunstarted] at this
        done := by
          have := hclient.done
          rwa [hunstarted] at this
        unstarted := iff_of_false (by simp) (by simp [HandlerPc.beforePump])
        stopOnce := fun _ => by simp
        shut := nofun
        ended := nofun }
    · refine ⟨fun _ => by simp, id, fun hexited => ?_⟩
      rw [hunstarted] at hexited
      cases hexited
  | serving =>
    rw [hpc] at hs hmove hmap
    cases e with
    | next => cases hs
    | send msg =>
      cases hs
      exact hmove (by simp) rfl (by simp) nofun nofun fun _ => rfl
    | leave =>
      cases hs
      exact hmove (by simp) rfl (by simp) nofun nofun fun _ => rfl
  | sending msg present =>
    rw [hpc] at hs hmove
    cases hs
    have hback : (s.setConn i { s.conns i with handler := .serving }).Inv
        ∧ s.Moves (s.setConn i { s.conns i with handler := .serving }) :=
      hmove (by simp) rfl (by simp) nofun nofun fun _ => rfl
    cases present with
    | false => exact hback
    | true =>
      have hsend := moves_enqueue (s.setConn i { s.conns i with handler := .serving }) i msg
      exact ⟨hback.1.enqueue i msg, hback.2.trans hsend⟩
  | closing =>
    rw [hpc] at hs
    cases hs
    refine handler_write h ?_ ?_ (Finset.Subset.refl _) fun _ => rfl
    · have hmoved : ({ s.conns i with handler := .unregistering }).Inv (acceptedBy i s.log) :=
        hclient.handler (by rw [hpc]; rfl) (by simp) nofun nofun
      exact { hmoved with }
    · exact ⟨fun _ => by simp, id, fun _ => ⟨rfl, rfl⟩⟩
  | unregistering =>
    rw [hpc] at hs
    cases hs
    refine handler_write h ?_ ?_ (Finset.erase_subset i s.clients)
      fun hi => absurd hi (Finset.notMem_erase i _)
    · exact hclient.handler (by rw [hpc]; rfl) (by simp) nofun nofun
    · exact ⟨fun _ => by simp, id, fun _ => ⟨rfl, rfl⟩⟩
  | shuttingDown =>
    rw [hpc] at hs hmap
    cases hs
    have hshut := hclient.shutdown (by rw [hpc]; simp)
    refine handler_write h ?_ ?_ (Finset.Subset.refl _) fun hi => by cases hmap hi
    · exact hshut.handler (by simp [hpc, HandlerPc.beforePump]) (by simp) (fun _ => by simp) nofun
    · obtain ⟨_, hasked, hfrozen⟩ := (s.conns i).later_shutdown
      exact ⟨fun _ => by simp, hasked, hfrozen⟩
  | waiting =>
    rw [hpc] at hs hmove hmap
    simp only [handlerStep] at hs
    split at hs
    · next hdone =>
      cases hs
      -- `done` is closed, so the pump has left
      have hexited : (s.conns i).pump.isExited = true := by
        rwa [Signal.closed_eq_of_toNat hclient.done] at hdone
      exact hmove (by simp) rfl (by simp) (fun _ => hclient.shut (by rw [hpc]; rfl))
        (fun _ => hexited) fun hi => by cases hmap hi
    · cases hs
  | ended =>
    rw [hpc] at hs
    cases hs

theorem pumpStep_inv (h : s.Inv) {e : ClientConn.PumpEvent} {cancelled : Finset Nat}
    (hs : (s.conns i).pumpStep cancelled e = some c') :
    (s.setConn i c').Inv ∧ s.Moves (s.setConn i c') := by
  have hmove := ClientConn.pumpStep_moves hs
  refine handler_write h ((h.client i).pump hmove) hmove.later (Finset.Subset.refl _) fun hi => ?_
  rw [hmove.handler_eq]
  exact h.inMap i hi

/-- A step that leaves the clients, what was sent to them and the counter alone. -/
theorem Inv.same (h : s.Inv) (hconns : s'.conns = s.conns) (hlog : s'.log = s.log)
    (hdropped : s'.broadcastDropped = s.broadcastDropped) (hclients : s'.clients ⊆ s.clients) :
    s'.Inv ∧ s.Moves s' := by
  refine ⟨⟨fun i => ?_, ?_, fun i hi => ?_⟩, fun i => ?_, fun i hi => Or.inl (hclients hi)⟩
  · rw [hconns, hlog]
    exact h.client i
  · rw [hdropped, hlog]
    exact h.dropped
  · rw [hconns]
    exact h.inMap i (hclients hi)
  · rw [hconns]
    exact .refl _

theorem closeStep_inv (h : s.Inv) {k : Nat} {rest : List ConnID} {stage : CloseStage}
    (hpc : (s.conns i).handler ≠ .upgraded) (hs : s.closeStep k i rest stage = some s') :
    s'.Inv ∧ s.Moves s' := by
  cases stage with
  | shutdown =>
    cases hs
    have hlater := (s.conns i).later_shutdown
    refine ⟨h.write rfl rfl rfl ((h.client i).shutdown hpc) (fun _ hj _ => hj) fun hi => ?_,
      Moves.write rfl hlater fun _ => Or.inl⟩
    rw [ClientConn.shutdown_handler]
    exact h.inMap i hi
  | connClose =>
    cases hs
    refine ⟨h.write rfl rfl rfl ?_ (fun _ hj _ => hj) (h.inMap i), Moves.write rfl ?_
      fun _ => Or.inl⟩
    · exact { h.client i with }
    · exact ⟨id, id, fun _ => ⟨rfl, rfl⟩⟩
  | wait =>
    simp only [closeStep] at hs
    split at hs
    · cases hs
      exact h.same rfl rfl rfl (Finset.Subset.refl _)
    · cases hs

theorem step_inv (h : s.Inv) (ht : s.Teardown) {l : Label α} (hs : s.step l = some s') :
    s'.Inv ∧ s.Moves s' := by
  cases l with
  | handler i e => exact handlerStep_inv h hs
  | pump i e =>
    obtain ⟨c', hc', rfl⟩ := Option.map_eq_some_iff.mp hs
    exact pumpStep_inv h hc'
  | broadcast msg order | closeClients order =>
    simp only [step] at hs
    split at hs
    · cases hs
      exact h.same rfl rfl rfl (by simp)
    · cases hs
  | enqueue k =>
    simp only [step] at hs
    split at hs
    · next msg i rest hk =>
      cases hs
      obtain ⟨hinv, hmoves⟩ : Inv { s with rounds := s.rounds.set k (msg, rest) }
          ∧ s.Moves { s with rounds := s.rounds.set k (msg, rest) } :=
        h.same rfl rfl rfl (Finset.Subset.refl _)
      exact ⟨hinv.enqueue i msg, hmoves.trans (moves_enqueue _ i msg)⟩
    · cases hs
  | closeNext k =>
    simp only [step] at hs
    split at hs
    · next stage i rest hk =>
      have hgone := ht.closing _ (List.mem_of_getElem? hk) i List.mem_cons_self
      exact closeStep_inv h hgone.2 hs
    · cases hs
  | start =>
    simp only [step] at hs
    split at hs
    · cases hs
    · cases hs
      exact h.same rfl rfl rfl (Finset.Subset.refl _)
  | cancel =>
    simp only [step] at hs
    split at hs
    · cases hs
      exact h.same rfl rfl rfl (Finset.Subset.refl _)
    · cases hs

/-! ### Teardown -/

/-- A step of somebody other than `closeClients`. -/
theorem Teardown.mono (ht : s.Teardown) (hmoves : s.Moves s') (hclosing : s'.closing = s.closing)
    (hjoined : s'.joined = s.joined) : s'.Teardown where
  closing call hcall i hi := by
    rw [hclosing] at hcall
    exact hmoves.gone (ht.closing call hcall i hi)
  asked call hcall hstage i hi := by
    rw [hclosing] at hcall
    exact (hmoves.conn i).asked (ht.asked call hcall hstage i hi)
  joined i hi := by
    rw [hjoined] at hi
    obtain ⟨hgone, hexited⟩ := ht.joined i hi
    refine ⟨hmoves.gone hgone, ?_⟩
    rw [((hmoves.conn i).frozen hexited).1]
    exact hexited

/-- The call at place `k` becomes `call`, which has no new clients. -/
theorem Teardown.set (ht : s.Teardown) (hmoves : s.Moves s') {k : Nat}
    {old call : CloseStage × List ConnID} (hk : s.closing[k]? = some old)
    (hclosing : s'.closing = s.closing.set k call) (hsub : call.2 ⊆ old.2)
    (hasked : call.1 ≠ .shutdown → ∀ i ∈ call.2.head?, (s'.conns i).stopOnce = true)
    (hjoined : ∀ i ∈ s'.joined, i ∈ s.joined
      ∨ s.Gone i ∧ (s.conns i).pump.isExited = true) : s'.Teardown where
  closing c hc i hi := by
    rw [hclosing] at hc
    rcases List.mem_or_eq_of_mem_set hc with hold | rfl
    · exact hmoves.gone (ht.closing c hold i hi)
    · exact hmoves.gone (ht.closing old (List.mem_of_getElem? hk) i (hsub hi))
  asked c hc hstage i hi := by
    rw [hclosing] at hc
    rcases List.mem_or_eq_of_mem_set hc with hold | rfl
    · exact (hmoves.conn i).asked (ht.asked c hold hstage i hi)
    · exact hasked hstage i hi
  joined i hi := by
    obtain ⟨hgone, hexited⟩ : s.Gone i ∧ (s.conns i).pump.isExited = true := by
      rcases hjoined i hi with hold | hnew
      · exact ht.joined i hold
      · exact hnew
    refine ⟨hmoves.gone hgone, ?_⟩
    rw [((hmoves.conn i).frozen hexited).1]
    exact hexited

theorem closeStep_teardown (h : s.Inv) (ht : s.Teardown) (hmoves : s.Moves s') {k : Nat}
    {rest : List ConnID} {stage : CloseStage} (hk : s.closing[k]? = some (stage, i :: rest))
    (hs : s.closeStep k i rest stage = some s') : s'.Teardown := by
  cases stage with
  | shutdown =>
    cases hs
    refine ht.set hmoves hk rfl (List.Subset.refl _) (fun _ j hj => ?_) fun _ => Or.inl
    obtain rfl : i = j := by simpa using hj
    simp [setConn]
  | connClose =>
    cases hs
    refine ht.set hmoves hk rfl (List.Subset.refl _) (fun _ j hj => ?_) fun _ => Or.inl
    obtain rfl : i = j := by simpa using hj
    have hasked := ht.asked _ (List.mem_of_getElem? hk) (by simp) i (by simp)
    simpa [setConn] using hasked
  | wait =>
    simp only [closeStep] at hs
    split at hs
    · next hdone =>
      cases hs
      refine ht.set hmoves hk rfl (List.subset_cons_self i rest) (by simp) fun j hj => ?_
      rcases List.mem_append.mp hj with hold | hnew
      · exact Or.inl hold
      · -- the receive went through, so the pump has left
        obtain rfl : j = i := by simpa using hnew
        rw [Signal.closed_eq_of_toNat (h.client j).done] at hdone
        exact Or.inr ⟨ht.closing _ (List.mem_of_getElem? hk) j List.mem_cons_self, hdone⟩
    · cases hs

theorem handlerStep_closing {e : HandlerEvent α} {pc : HandlerPc α}
    (hs : s.handlerStep i e pc = some s') : s'.closing = s.closing ∧ s'.joined = s.joined := by
  cases pc with
  | serving =>
    cases e <;> cases hs <;> exact ⟨rfl, rfl⟩
  | sending msg present =>
    cases hs
    cases present with
    | false => exact ⟨rfl, rfl⟩
    | true => exact ⟨enqueue_closing .., enqueue_joined ..⟩
  | waiting =>
    simp only [handlerStep] at hs
    split at hs
    · cases hs
      exact ⟨rfl, rfl⟩
    · cases hs
  | ended => cases hs
  | upgraded | registered | closing | unregistering | shuttingDown =>
    cases hs
    exact ⟨rfl, rfl⟩

theorem step_teardown (h : s.Inv) (ht : s.Teardown) {l : Label α} (hs : s.step l = some s') :
    s'.Teardown := by
  have hmoves := (step_inv h ht hs).2
  cases l with
  | handler i e =>
    obtain ⟨hclosing, hjoined⟩ := handlerStep_closing hs
    exact ht.mono hmoves hclosing hjoined
  | pump i e =>
    obtain ⟨c', hc', rfl⟩ := Option.map_eq_some_iff.mp hs
    exact ht.mono hmoves rfl rfl
  | broadcast msg order =>
    simp only [step] at hs
    split at hs
    · cases hs
      exact ht.mono hmoves rfl rfl
    · cases hs
  | enqueue k =>
    simp only [step] at hs
    split at hs
    · cases hs
      exact ht.mono hmoves (enqueue_closing ..) (enqueue_joined ..)
    · cases hs
  | closeClients order =>
    simp only [step] at hs
    split at hs
    · next horder =>
      cases hs
      refine ⟨fun call hcall i hi => ?_, fun call hcall hstage i hi => ?_, fun i hi => ?_⟩
      · rcases List.mem_append.mp hcall with hold | hnew
        · exact hmoves.gone (ht.closing call hold i hi)
        · obtain rfl := List.mem_singleton.mp hnew
          have hin : i ∈ s.clients := by
            rw [← horder.2, List.mem_toFinset]
            exact hi
          -- it was in the map, so its handler has registered it
          refine ⟨Finset.notMem_empty i, fun hup => ?_⟩
          have hmap := h.inMap i hin
          rw [show (s.conns i).handler = .upgraded from hup] at hmap
          cases hmap
      · rcases List.mem_append.mp hcall with hold | hnew
        · exact ht.asked call hold hstage i hi
        · obtain rfl := List.mem_singleton.mp hnew
          exact absurd rfl hstage
      · obtain ⟨hgone, hexited⟩ := ht.joined i hi
        exact ⟨hmoves.gone hgone, hexited⟩
    · cases hs
  | closeNext k =>
    simp only [step] at hs
    split at hs
    · next stage i rest hk => exact closeStep_teardown h ht hmoves hk hs
    · cases hs
  | start =>
    simp only [step] at hs
    split at hs
    · cases hs
    · cases hs
      exact ht.mono hmoves rfl rfl
  | cancel =>
    simp only [step] at hs
    split at hs
    · cases hs
      exact ht.mono hmoves rfl rfl
    · cases hs

theorem new_inv : (new : Pumps α).Inv where
  client _ := ClientConn.inv_new
  dropped := rfl
  inMap := nofun

theorem new_teardown : (new : Pumps α).Teardown := ⟨nofun, nofun, nofun⟩

theorem reach_inv (h : Reach step anyStep new s) : s.Inv ∧ s.Teardown := by
  refine h.invariant (P := fun s => s.Inv ∧ s.Teardown) ⟨new_inv, new_teardown⟩
    fun s l s' hinv _ hs => ?_
  exact ⟨(step_inv hinv.1 hinv.2 hs).1, step_teardown hinv.1 hinv.2 hs⟩

theorem reach_moves (h : Reach step anyStep new s) (h' : Reach step anyStep s s') :
    s.Moves s' := by
  refine h.rel Moves.refl Moves.trans (fun ht hs => ?_) h'
  obtain ⟨hinv, hteardown⟩ := reach_inv ht
  exact (step_inv hinv hteardown hs).2

end

/-! ## Results -/

/-- In every reachable state, whatever the order of steps: what client `i` was sent and accepted
is what is on the wire, then what the pump has in hand, then what is queued, in that order and
without a gap; the queue never holds more than 16 messages; and the counter of dropped messages
is the number of messages that found the queue full. -/
theorem delivery_exact {s : Pumps α} (h : Reach step anyStep new s) :
    (∀ i, acceptedBy i s.log
        = (s.conns i).written ++ (s.conns i).pump.inHand ++ (s.conns i).sendCh.items
      ∧ (s.conns i).sendCh.items.length ≤ 16)
      ∧ s.broadcastDropped = s.log.countP fun o => !o.queued := by
  obtain ⟨hinv, -⟩ := reach_inv h
  exact ⟨fun i => ⟨(hinv.client i).delivery, (s.conns i).sendCh.bounded⟩, hinv.dropped⟩

/-- A slow client: one message is on the wire, one in the hands of the pump, 16 wait, and one was
dropped. -/
theorem delivery_exact_slow :
    ∃ s : Pumps Nat, Reach step anyStep new s
      ∧ (s.conns 0).written = [0] ∧ (s.conns 0).pump = .writing 1
      ∧ (s.conns 0).sendCh.items = List.range' 2 16 ∧ s.broadcastDropped = 1
      ∧ (∀ i, acceptedBy i s.log
          = (s.conns i).written ++ (s.conns i).pump.inHand ++ (s.conns i).sendCh.items
        ∧ (s.conns i).sendCh.items.length ≤ 16)
      ∧ s.broadcastDropped = s.log.countP fun o => !o.queued := by
  obtain ⟨s, hs, htest⟩ := Trans.exists_reach_of_exec step (new : Pumps Nat)
    (List.flatten [List.replicate 2 (.handler 0 .next),
      (List.range 2).flatMap fun m => [.handler 0 (.send m), .handler 0 .next],
      [.pump 0 .receive, .pump 0 (.returned true), .pump 0 .receive],
      (List.range' 2 17).flatMap fun m => [.handler 0 (.send m), .handler 0 .next]])
    (fun s => decide ((s.conns 0).written = [0] ∧ (s.conns 0).pump = PumpPc.writing 1
      ∧ (s.conns 0).sendCh.items = List.range' 2 16 ∧ s.broadcastDropped = 1))
    (by decide +kernel)
  obtain ⟨hwritten, hpump, hitems, hdropped⟩ := of_decide_eq_true htest
  exact ⟨s, hs, hwritten, hpump, hitems, hdropped, delivery_exact hs⟩

/-- `close` is called at most once on `stop` and on `done`, so it never panics. When the handler
of client `i` has returned from `unregister`, or some call of `closeClients` is past the client,
the pump has left: nothing is written to the connection from then on, and the client does not
get into the map again. -/
theorem teardown_joins_pump {s : Pumps α} (h : Reach step anyStep new s) (i : ConnID) :
    (s.conns i).stop.closes ≤ 1 ∧ (s.conns i).done.closes ≤ 1
      ∧ ((s.conns i).handler = .ended ∨ i ∈ s.joined →
        (s.conns i).pump.isExited = true
          ∧ ∀ s', Reach step anyStep s s' →
            (s'.conns i).written = (s.conns i).written ∧ i ∉ s'.clients) := by
  obtain ⟨hinv, hteardown⟩ := reach_inv h
  have hclient := hinv.client i
  refine ⟨hclient.stop ▸ Bool.toNat_le _, hclient.done ▸ Bool.toNat_le _, fun hend => ?_⟩
  obtain ⟨hgone, hexited⟩ : s.Gone i ∧ (s.conns i).pump.isExited = true := by
    rcases hend with hended | hjoined
    · refine ⟨⟨fun hmem => ?_, by simp [hended]⟩, hclient.ended hended⟩
      have hmap := hinv.inMap i hmem
      rw [hended] at hmap
      cases hmap
    · exact hteardown.joined i hjoined
  refine ⟨hexited, fun s' hrun => ?_⟩
  have hmoves := reach_moves h hrun
  exact ⟨((hmoves.conn i).frozen hexited).2, (hmoves.gone hgone).1⟩

/-- The handler and `closeClients` have both shut client 0 down, and both are through. -/
theorem teardown_joins_pump_both :
    ∃ s : Pumps Nat, Reach step anyStep new s
      ∧ (s.conns 0).handler = .ended ∧ s.joined = [0]
      ∧ (s.conns 0).stop.closes ≤ 1 ∧ (s.conns 0).done.closes ≤ 1
      ∧ ((s.conns 0).handler = .ended ∨ 0 ∈ s.joined →
        (s.conns 0).pump.isExited = true
          ∧ ∀ s', Reach step anyStep s s' →
            (s'.conns 0).written = (s.conns 0).written ∧ 0 ∉ s'.clients) := by
  obtain ⟨s, hs, htest⟩ := Trans.exists_reach_of_exec step (new : Pumps Nat)
    [.handler 0 .next, .closeClients [0], .closeNext 0, .handler 0 .next, .closeNext 0,
      .handler 0 .leave, .handler 0 .next, .handler 0 .next, .handler 0 .next, .pump 0 .stop,
      .pump 0 .finish, .handler 0 .next, .closeNext 0]
    (fun s => decide ((s.conns 0).handler = HandlerPc.ended ∧ s.joined = [0]))
    (by decide +kernel)
  obtain ⟨hended, hjoined⟩ := of_decide_eq_true htest
  exact ⟨s, hs, hended, hjoined, teardown_joins_pump hs 0⟩

/-- Somebody is at `<-cl.done` for client `i`: its handler, or a call of `closeClients`. -/
def Waits (s : Pumps α) (i : ConnID) : Prop :=
  (s.conns i).handler = .waiting ∨ ∃ rest, (.wait, i :: rest) ∈ s.closing

/-- A pump that runs and was asked to leave can leave in two steps, without the others. -/
theorem pump_leaves (c : ClientConn α) (cancelled : Finset Nat) (hstop : c.stop.closed = true)
    (hdone : c.done.closed = c.pump.isExited) (hstarted : c.pump ≠ .unstarted) :
    ∃ es c', es.length ≤ 2 ∧ exec (fun c e => c.pumpStep cancelled e) c es = some c'
      ∧ c'.done.closed = true ∧ c'.handler = c.handler := by
  -- from the place before the deferred close it is one step more
  have hleave : ∀ (e : ClientConn.PumpEvent) (lost : Option α),
      c.pumpStep cancelled e = some { c with pump := .leaving lost } →
      ∃ es c', es.length ≤ 2 ∧ exec (fun c e => c.pumpStep cancelled e) c es = some c'
        ∧ c'.done.closed = true ∧ c'.handler = c.handler := by
    intro e lost he
    refine ⟨[e, .finish], { c with pump := .exited lost, done := c.done.close }, by simp, ?_,
      by simp [Signal.closed, Signal.close], rfl⟩
    show (c.pumpStep cancelled e).bind _ = _
    rw [he]
    rfl
  cases hpump : c.pump with
  | unstarted => exact absurd hpump hstarted
  | selecting => exact hleave .stop none (by simp [ClientConn.pumpStep, hpump, hstop])
  | writing msg =>
    exact hleave (.returned false) (some msg) (by simp [ClientConn.pumpStep, hpump])
  | pinging =>
    exact hleave (.returned false) none (by simp [ClientConn.pumpStep, hpump])
  | leaving lost =>
    refine ⟨[.finish], { c with pump := .exited lost, done := c.done.close }, by simp, ?_,
      by simp [Signal.closed, Signal.close], rfl⟩
    simp [exec, ClientConn.pumpStep, hpump]
  | exited lost =>
    refine ⟨[], c, by simp, rfl, ?_, rfl⟩
    rw [hdone, hpump]
    rfl

/-- Steps of pump `i` alone, as steps of the server. Induction on the steps. -/
theorem exec_pump (s : Pumps α) (i : ConnID) {es : List ClientConn.PumpEvent}
    {c' : ClientConn α}
    (h : exec (fun c e => c.pumpStep s.cancelled e) (s.conns i) es = some c') :
    exec step s (es.map (.pump i)) = some (s.setConn i c') := by
  induction es generalizing s with
  | nil =>
    cases h
    simp [exec, setConn]
  | cons e es ih =>
    obtain ⟨c₁, hc₁, hrest⟩ := Option.bind_eq_some_iff.mp h
    have hstep : s.step (.pump i e) = some (s.setConn i c₁) := by
      show ((s.conns i).pumpStep s.cancelled e).map (s.setConn i) = some (s.setConn i c₁)
      exact congrArg (Option.map (s.setConn i)) hc₁
    have hself : (s.setConn i c₁).conns i = c₁ := Function.update_self ..
    have hih := ih (s.setConn i c₁) (by rw [hself]; exact hrest)
    show (s.step (.pump i e)).bind _ = _
    rw [hstep]
    show exec step (s.setConn i c₁) (es.map (.pump i)) = _
    rw [hih]
    simp [setConn]

/-- Whoever waits for the pump of client `i` is never stuck: at most three steps of the two
goroutines of that connection, which need nobody else, close `done`, and then the handler and
every call of `closeClients` that waits for it can go on. -/
theorem teardown_not_stuck {s : Pumps α} (h : Reach step anyStep new s) {i : ConnID}
    (hwaits : s.Waits i) :
    ∃ ls s', ls.length ≤ 3 ∧ (∀ l ∈ ls, l.ofConn i) ∧ exec step s ls = some s'
      ∧ ((s.conns i).handler = .waiting → (s'.step (.handler i .next)).isSome = true)
      ∧ ∀ k rest, s.closing[k]? = some (.wait, i :: rest) →
        (s'.step (.closeNext k)).isSome = true := by
  obtain ⟨hinv, hteardown⟩ := reach_inv h
  have hclient := hinv.client i
  -- the pump has been asked to leave, and its client was registered
  have honce : (s.conns i).stopOnce = true := by
    rcases hwaits with hhandler | ⟨rest, hcall⟩
    · exact hclient.shut (by rw [hhandler]; rfl)
    · exact hteardown.asked _ hcall (by simp) i (by simp)
  have hstop : (s.conns i).stop.closed = true := by
    rw [Signal.closed_eq_of_toNat hclient.stop, honce]
  have hdone := Signal.closed_eq_of_toNat hclient.done
  -- once `done` is closed, all who wait can go on
  have hgo : ∀ s' : Pumps α, s'.closing = s.closing → (s'.conns i).done.closed = true →
      ((s.conns i).handler = .waiting → (s'.conns i).handler = .waiting) →
      ((s.conns i).handler = .waiting → (s'.step (.handler i .next)).isSome = true)
        ∧ ∀ k rest, s.closing[k]? = some (.wait, i :: rest) →
          (s'.step (.closeNext k)).isSome = true := by
    intro s' hclosing hclosed hkeep
    refine ⟨fun hhandler => ?_, fun k rest hk => ?_⟩
    · simp [step, hkeep hhandler, handlerStep, hclosed]
    · simp [step, hclosing, hk, closeStep, hclosed]
  by_cases hunstarted : (s.conns i).pump = .unstarted
  · -- `closeClients` has been faster than the handler, which is about to start the pump
    have hregistered : (s.conns i).handler = .registered := by
      have hbefore := hclient.unstarted.mp hunstarted
      have hnew := hclient.stopOnce honce
      cases hpc : (s.conns i).handler <;> simp_all [HandlerPc.beforePump]
    obtain ⟨c, hc⟩ : ∃ c, c = { s.conns i with
      handler := .serving, pump := .selecting, ctx := s.ctx } := ⟨_, rfl⟩
    have hstart : s.step (.handler i .next) = some (s.setConn i c) := by
      simp [step, hregistered, handlerStep, hc]
    have hself : (s.setConn i c).conns i = c := Function.update_self ..
    obtain ⟨es, c', hlen, hexec, hclosed, -⟩ := pump_leaves c s.cancelled (by rw [hc]; exact hstop)
      (by
        rw [hc]
        show (s.conns i).done.closed = false
        rw [hdone, hunstarted]
        rfl)
      (by simp [hc])
    have hrun := exec_pump (s.setConn i c) i (by rw [hself]; exact hexec)
    refine ⟨.handler i .next :: es.map (.pump i), (s.setConn i c).setConn i c', ?_, ?_, ?_, ?_⟩
    · rw [List.length_cons, List.length_map]
      omega
    · simp [Label.ofConn]
    · show (s.step (.handler i .next)).bind _ = _
      rw [hstart]
      exact hrun
    · refine hgo _ rfl ?_ fun hwaiting => ?_
      · simpa [setConn] using hclosed
      · rw [hregistered] at hwaiting
        cases hwaiting
  · obtain ⟨es, c', hlen, hexec, hclosed, hhandler⟩ :=
      pump_leaves (s.conns i) s.cancelled hstop hdone hunstarted
    refine ⟨es.map (.pump i), s.setConn i c', ?_, ?_, exec_pump s i hexec, ?_⟩
    · rw [List.length_map]
      omega
    · simp [Label.ofConn]
    · refine hgo _ rfl ?_ fun hwaiting => ?_
      · simpa [setConn] using hclosed
      · simpa [setConn, hhandler] using hwaiting

/-- `closeClients` waits for a pump that the handler has not started yet. -/
theorem teardown_not_stuck_unstarted :
    ∃ s : Pumps Nat, Reach step anyStep new s ∧ (s.conns 0).pump = .unstarted
      ∧ ∃ ls s', ls.length ≤ 3 ∧ (∀ l ∈ ls, l.ofConn 0) ∧ exec step s ls = some s'
        ∧ ((s.conns 0).handler = .waiting → (s'.step (.handler 0 .next)).isSome = true)
        ∧ ∀ k rest, s.closing[k]? = some (.wait, 0 :: rest) →
          (s'.step (.closeNext k)).isSome = true := by
  obtain ⟨s, hs, htest⟩ := Trans.exists_reach_of_exec step (new : Pumps Nat)
    [.handler 0 .next, .closeClients [0], .closeNext 0, .closeNext 0]
    (fun s => decide ((s.conns 0).pump = PumpPc.unstarted ∧ s.closing = [(.wait, [0])]))
    (by decide +kernel)
  obtain ⟨hpump, hclosing⟩ := of_decide_eq_true htest
  exact ⟨s, hs, hpump, teardown_not_stuck hs (Or.inr ⟨[], by rw [hclosing]; simp⟩)⟩

end GreenThreads.Web.Pumps
