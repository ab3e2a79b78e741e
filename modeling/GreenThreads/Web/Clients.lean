import GreenThreads.Lib.Trans
import Mathlib.Data.Finset.Card

/-!
# GreenThreads — the slots of WebSocket clients (`web/server.go`)

A connection takes a slot of `clientCount` before its handshake (`reserveClient`), without
holding `clientsMu`, and there are three ways to give it back: `releaseClient` after a failed
upgrade, `unregister` when the handler of the connection returns, and the loop of `closeClients`
over the clients it has taken out of the map.

A step is one atomic operation or one critical section of `clientsMu`. `unregister` deletes the
client and releases its slot in one section; the map is only looked at under `clientsMu`, so its
deletion may be put at the moment of the release.

* `Slots` — the counter, the map, the handlers and the calls of `closeClients`;
* `Slots.Conserved` — every slot has exactly one owner;
* `slots_conserved` — what that gives in every reachable state.

Left out: a request that fails the checks of token and origin returns before it asks for a slot.
-/

namespace GreenThreads.Web

open Trans (Reach anyStep)

/-- A connection, named by the number of its call of `handleWebSocket`. -/
abbrev ConnID := Nat

/-- `NewServerWithConfig`'s treatment of `MaxClients`. -/
def effectiveMaxClients (maxClients : Int) : Int := if maxClients ≤ 0 then 64 else maxClients

/-- Where a call of `handleWebSocket` is. The compare-and-swap is only tried with a value below
the limit. -/
inductive ConnPc (limit : Int) where
  /-- Before the load of `reserveClient`. -/
  | loading
  | swapping (n : Int) (h : n < limit)
  /-- `reserveClient` has returned false. -/
  | rejected
  /-- The slot is reserved, `Upgrade` is running. -/
  | upgrading
  /-- `Upgrade` has failed, the slot is not released yet. -/
  | failed
  /-- `Upgrade` has succeeded, the client is not registered yet. -/
  | upgraded
  /-- The client was registered and its handler has not unregistered it yet. -/
  | serving
  | ended
  deriving DecidableEq

namespace ConnPc

variable {limit : Int}

/-- The handler holds a reservation and has not registered its client. -/
def reserved : ConnPc limit → Bool
  | upgrading | failed | upgraded => true
  | loading | swapping _ _ | rejected | serving | ended => false

/-- The handler has nothing more to do. -/
def finished : ConnPc limit → Bool
  | rejected | ended => true
  | loading | swapping _ _ | upgrading | failed | upgraded | serving => false

/-- The handler has registered its client. -/
def registered : ConnPc limit → Bool
  | serving | ended => true
  | loading | swapping _ _ | rejected | upgrading | failed | upgraded => false

end ConnPc

/-- The part of the server that is about client slots. -/
structure Slots (limit : Int) where
  clientCount : Int := 0
  /-- The keys of `clients`. -/
  clients : Finset ConnID := ∅
  conns : List (ConnPc limit) := []
  /-- For each call of `closeClients` the clients whose release has not run yet. -/
  closing : List (List ConnID) := []

namespace Slots

variable {limit : Int}

/-- `NewServerWithConfig`. -/
def new (maxClients : Int) : Slots (effectiveMaxClients maxClients) := {}

/-! ## Steps -/

inductive Label where
  /-- A request gets to `reserveClient`. -/
  | connect
  /-- The next step of handler `i`; `upgrade` is the outcome of the upgrade where that is the
  step. -/
  | handler (i : ConnID) (upgrade : Bool)
  /-- `closeClients` swaps the map; `order` is the order in which it went over it. -/
  | closeClients (order : List ConnID)
  /-- The next round of the loop of the `k`-th call of `closeClients`. -/
  | release (k : Nat)

variable (s : Slots limit)

def setConn (i : ConnID) (pc : ConnPc limit) : Slots limit := { s with conns := s.conns.set i pc }

/-- `releaseClient`. -/
def releaseClient : Slots limit := { s with clientCount := s.clientCount - 1 }

/-- The critical section of `unregister`. -/
def unregister (i : ConnID) : Slots limit :=
  if i ∈ s.clients then { s with clients := s.clients.erase i }.releaseClient else s

/-- The next step of handler `i`. -/
def handlerStep (i : ConnID) (upgrade : Bool) : ConnPc limit → Option (Slots limit)
  | .loading =>
    some (s.setConn i
      (if h : s.clientCount < limit then .swapping s.clientCount h else .rejected))
  | .swapping n _ =>
    if s.clientCount = n then
      some ({ s with clientCount := n + 1 }.setConn i .upgrading)
    else some (s.setConn i .loading)
  | .upgrading => some (s.setConn i (if upgrade then .upgraded else .failed))
  | .failed => some (s.releaseClient.setConn i .ended)
  | .upgraded => some ({ s with clients := insert i s.clients }.setConn i .serving)
  | .serving => some ((s.unregister i).setConn i .ended)
  | .rejected | .ended => none

/-- One step. -/
def step : Label → Option (Slots limit)
  | .connect => some { s with conns := s.conns ++ [.loading] }
  | .handler i upgrade => s.conns[i]?.bind (s.handlerStep i upgrade)
  | .closeClients order =>
    if order.Nodup ∧ order.toFinset = s.clients then
      some { s with clients := ∅, closing := s.closing ++ [order] }
    else none
  | .release k =>
    match s.closing[k]? with
    | some (_ :: rest) => some { s with closing := s.closing.set k rest }.releaseClient
    | _ => none

/-! ## Who owns a slot -/

/-- The handlers that hold a reservation. -/
def reservations : Nat := s.conns.countP ConnPc.reserved

/-- The clients that `closeClients` has taken out of the map and not released. -/
def taken : Finset ConnID := s.closing.flatten.toFinset

/-- Every handler has returned and every call of `closeClients` is through its loop. -/
def AllEnded : Prop := (∀ pc ∈ s.conns, pc.finished = true) ∧ ∀ cls ∈ s.closing, cls = []

/-- Every slot has exactly one owner: a registered client, a handler with a reservation, or a
client in the hands of `closeClients`. -/
structure Conserved (s : Slots limit) : Prop where
  count : s.clientCount = s.clients.card + s.reservations + s.closing.flatten.length
  capped : s.clientCount ≤ limit
  clients : ∀ i ∈ s.clients, s.conns[i]? = some .serving
  /-- A client that was taken out is not in the map, and will not be put there again. -/
  taken : ∀ i ∈ s.closing.flatten, i ∉ s.clients ∧ ∃ pc ∈ s.conns[i]?, pc.registered = true
  nodup : s.closing.flatten.Nodup

section

variable {s s' : Slots limit} {i : ConnID} {pc pc' : ConnPc limit}

/-- A list around one of its places, before and after that place is written. -/
theorem split_of_getElem? {α : Type*} {xs : List α} {k : Nat} {x : α} (h : xs[k]? = some x)
    (y : α) : ∃ before after, xs = before ++ x :: after ∧ xs.set k y = before ++ y :: after := by
  obtain ⟨hlt, rfl⟩ := List.getElem?_eq_some_iff.mp h
  obtain ⟨before, after, hsplit, -, hset⟩ : ∃ before after, xs = before ++ xs[k] :: after
      ∧ before.length = k ∧ xs.set k y = before ++ y :: after := List.exists_of_set hlt
  exact ⟨before, after, hsplit, hset⟩

theorem reservations_set (hpc : s.conns[i]? = some pc) (hconns : s'.conns = s.conns.set i pc') :
    s'.reservations + pc.reserved.toNat = s.reservations + pc'.reserved.toNat := by
  obtain ⟨before, after, hsplit, hset⟩ := split_of_getElem? hpc pc'
  have hcons : ∀ pc : ConnPc limit, (before ++ pc :: after).countP ConnPc.reserved
      = before.countP ConnPc.reserved + after.countP ConnPc.reserved + pc.reserved.toNat := by
    intro pc
    rw [List.countP_append, List.countP_cons, Nat.add_assoc]
    cases pc.reserved <;> rfl
  have hset' : s'.conns = before ++ pc' :: after := hconns.trans hset
  simp only [reservations, hset', hsplit, hcons]
  omega

/-- Handler `i` moves: the counter follows the owners, only `i` can get into the map, and only
when it had not been there before. -/
theorem Conserved.conn (hc : s.Conserved) (hpc : s.conns[i]? = some pc)
    (hconns : s'.conns = s.conns.set i pc') (hclosing : s'.closing = s.closing)
    (hcount : s'.clientCount + (s.clients.card + pc.reserved.toNat)
      = s.clientCount + (s'.clients.card + pc'.reserved.toNat))
    (hcapped : s'.clientCount ≤ limit)
    (hclients : ∀ j ∈ s'.clients, j ≠ i → j ∈ s.clients)
    (hin : i ∈ s'.clients → pc' = .serving ∧ pc.registered = false)
    (hregistered : pc.registered = true → pc'.registered = true) : s'.Conserved where
  count := by
    have hres := reservations_set hpc hconns
    have := hc.count
    rw [hclosing]
    omega
  capped := hcapped
  clients j hj := by
    rw [hconns]
    by_cases hji : j = i
    · subst hji
      rw [List.getElem?_set_self (List.getElem?_eq_some_iff.mp hpc).1, (hin hj).1]
    · rw [List.getElem?_set_ne (Ne.symm hji)]
      exact hc.clients j (hclients j hj hji)
  taken j hj := by
    rw [hclosing] at hj
    obtain ⟨hout, pcj, hpcj, hreg⟩ := hc.taken j hj
    rw [hconns]
    by_cases hji : j = i
    · subst hji
      obtain rfl : pcj = pc := Option.some.inj (hpcj.symm.trans hpc)
      refine ⟨fun hmem => ?_, pc', ?_, hregistered hreg⟩
      · rw [(hin hmem).2] at hreg
        cases hreg
      · exact List.getElem?_set_self (List.getElem?_eq_some_iff.mp hpc).1
    · refine ⟨fun hmem => hout (hclients j hmem hji), pcj, ?_, hreg⟩
      rw [List.getElem?_set_ne (Ne.symm hji)]
      exact hpcj
  nodup := by
    rw [hclosing]
    exact hc.nodup

theorem Conserved.unregister (hc : s.Conserved) (hpc : s.conns[i]? = some .serving) :
    ((s.unregister i).setConn i .ended).Conserved := by
  by_cases hmem : i ∈ s.clients
  · have hcard := Finset.card_erase_add_one hmem
    simp only [Slots.unregister, if_pos hmem]
    refine hc.conn hpc rfl rfl ?_ ?_ (fun j hj _ => Finset.mem_of_mem_erase hj)
      (fun hi => absurd hi (Finset.notMem_erase i _)) (fun _ => rfl)
    · simp only [setConn, releaseClient, ConnPc.reserved, Bool.toNat_false]
      omega
    · have := hc.capped
      simp only [setConn, releaseClient]
      omega
  · -- `closeClients` has been faster, and releases the slot
    simp only [Slots.unregister, if_neg hmem]
    exact hc.conn hpc rfl rfl rfl hc.capped (fun _ hj _ => hj) (fun hi => absurd hi hmem)
      (fun _ => rfl)

/-- A client that its handler has not registered is not in the map. -/
theorem Conserved.notMem_clients (hc : s.Conserved) (hpc : s.conns[i]? = some pc)
    (hout : pc.registered = false) : i ∉ s.clients := by
  intro hi
  obtain rfl : pc = .serving := Option.some.inj (hpc.symm.trans (hc.clients i hi))
  cases hout

/-- A handler that has not registered its client moves, and the map stays as it is. -/
theorem Conserved.outside (hc : s.Conserved) (hpc : s.conns[i]? = some pc)
    (hout : pc.registered = false) (hconns : s'.conns = s.conns.set i pc')
    (hclosing : s'.closing = s.closing) (hclients : s'.clients = s.clients)
    (hcount : s'.clientCount + pc.reserved.toNat = s.clientCount + pc'.reserved.toNat)
    (hcapped : s'.clientCount ≤ limit) : s'.Conserved := by
  have hnot := hc.notMem_clients hpc hout
  refine hc.conn hpc hconns hclosing ?_ hcapped ?_ ?_ ?_
  · rw [hclients]
    omega
  · intro j hj _
    rwa [hclients] at hj
  · intro hi
    rw [hclients] at hi
    exact absurd hi hnot
  · intro hregistered
    rw [hout] at hregistered
    cases hregistered

theorem Conserved.handler (hc : s.Conserved) (hpc : s.conns[i]? = some pc) {upgrade : Bool}
    (h : s.handlerStep i upgrade pc = some s') : s'.Conserved := by
  have hcapped := hc.capped
  cases pc with
  | loading =>
    cases h
    refine hc.outside hpc rfl rfl rfl rfl ?_ hcapped
    dsimp only [setConn]
    split <;> rfl
  | swapping n hn =>
    simp only [handlerStep] at h
    split at h
    · next heq =>
      -- the swap goes through: the counter was still the value that was found below the limit
      cases h
      refine hc.outside hpc rfl rfl rfl rfl ?_ hn
      simp only [setConn, heq, ConnPc.reserved, Bool.toNat_false, Bool.toNat_true]
      omega
    · cases h
      exact hc.outside hpc rfl rfl rfl rfl rfl hcapped
  | upgrading =>
    cases h
    refine hc.outside hpc rfl rfl rfl rfl ?_ hcapped
    dsimp only [setConn]
    split <;> rfl
  | failed =>
    cases h
    refine hc.outside hpc rfl rfl rfl rfl ?_ ?_
    · simp only [setConn, releaseClient, ConnPc.reserved, Bool.toNat_false, Bool.toNat_true]
      omega
    · simp only [setConn, releaseClient]
      omega
  | upgraded =>
    -- the reservation becomes a registered client, and the counter stays
    cases h
    have hnot := hc.notMem_clients hpc rfl
    refine hc.conn hpc rfl rfl ?_ hcapped
      (fun j hj hne => Finset.mem_of_mem_insert_of_ne hj hne) (fun _ => ⟨rfl, rfl⟩) nofun
    simp only [setConn, Finset.card_insert_of_notMem hnot, ConnPc.reserved, Bool.toNat_false,
      Bool.toNat_true]
    omega
  | serving =>
    cases h
    exact hc.unregister hpc
  | rejected | ended => cases h

/-- The slots of the map's clients pass to `closeClients`. -/
theorem Conserved.closeClients (hc : s.Conserved) {order : List ConnID} (hnodup : order.Nodup)
    (hclients : order.toFinset = s.clients) :
    Conserved { s with clients := ∅, closing := s.closing ++ [order] } := by
  have hmem : ∀ i, i ∈ order ↔ i ∈ s.clients := by
    intro i
    rw [← hclients, List.mem_toFinset]
  have hlen : order.length = s.clients.card := by
    rw [← hclients, List.toFinset_card_of_nodup hnodup]
  have hflat : (s.closing ++ [order]).flatten = s.closing.flatten ++ order := by simp
  refine ⟨?_, hc.capped, nofun, ?_, ?_⟩
  · have hcount := hc.count
    simp only [reservations, hflat, List.length_append, Finset.card_empty, hlen] at hcount ⊢
    omega
  · intro i hi
    refine ⟨Finset.notMem_empty i, ?_⟩
    rw [hflat, List.mem_append] at hi
    rcases hi with hold | hnew
    · exact (hc.taken i hold).2
    · exact ⟨.serving, hc.clients i ((hmem i).mp hnew), rfl⟩
  · -- an earlier `closeClients` has none of these: what it took had left the map
    rw [hflat]
    refine List.nodup_append'.mpr ⟨hc.nodup, hnodup, fun i hold hnew => ?_⟩
    exact (hc.taken i hold).1 ((hmem i).mp hnew)

theorem Conserved.release (hc : s.Conserved) {k : Nat} {rest : List ConnID}
    (hk : s.closing[k]? = some (i :: rest)) :
    Conserved { s with closing := s.closing.set k rest }.releaseClient := by
  obtain ⟨before, after, hsplit, hset⟩ := split_of_getElem? hk rest
  have hold : s.closing.flatten = before.flatten ++ i :: (rest ++ after.flatten) := by
    rw [hsplit]
    simp
  have hnew : (s.closing.set k rest).flatten = before.flatten ++ (rest ++ after.flatten) := by
    rw [hset]
    simp
  have hsub : ((s.closing.set k rest).flatten).Sublist s.closing.flatten := by
    rw [hold, hnew]
    exact (List.Sublist.refl _).append (List.sublist_cons_self i _)
  refine ⟨?_, ?_, hc.clients, fun j hj => hc.taken j (hsub.subset hj), hc.nodup.sublist hsub⟩
  · have hcount := hc.count
    simp only [releaseClient, reservations, hnew, hold, List.length_append,
      List.length_cons] at hcount ⊢
    omega
  · have hcapped := hc.capped
    simp only [releaseClient]
    omega

theorem Conserved.step {l : Label} (hc : s.Conserved) (h : s.step l = some s') :
    s'.Conserved := by
  cases l with
  | connect =>
    cases h
    -- the new connection gets the next number, all others keep theirs
    have hkeep : ∀ {i : ConnID} {pc : ConnPc limit}, s.conns[i]? = some pc →
        (s.conns ++ [.loading])[i]? = some pc := fun hpc => by
      rw [List.getElem?_append_left (List.getElem?_eq_some_iff.mp hpc).1]
      exact hpc
    refine { hc with count := ?_, clients := ?_, taken := ?_ }
    · have := hc.count
      simpa [reservations, ConnPc.reserved] using this
    · exact fun i hi => hkeep (hc.clients i hi)
    · intro i hi
      obtain ⟨hout, pc, hpc, hreg⟩ := hc.taken i hi
      exact ⟨hout, pc, hkeep hpc, hreg⟩
  | handler i upgrade =>
    obtain ⟨pc, hpc, hstep⟩ := Option.bind_eq_some_iff.mp h
    exact hc.handler hpc hstep
  | closeClients order =>
    simp only [Slots.step] at h
    split at h
    · next horder =>
      cases h
      exact hc.closeClients horder.1 horder.2
    · cases h
  | release k =>
    simp only [Slots.step] at h
    split at h
    · next i rest hk =>
      cases h
      exact hc.release hk
    · cases h

end

/-- `NewServerWithConfig` leaves room for a client. -/
theorem effectiveMaxClients_pos (maxClients : Int) : 0 < effectiveMaxClients maxClients := by
  unfold effectiveMaxClients
  split <;> omega

theorem new_conserved (maxClients : Int) : (new maxClients).Conserved where
  count := rfl
  capped := (effectiveMaxClients_pos maxClients).le
  clients := nofun
  taken := nofun
  nodup := List.nodup_nil

/-- Once everything has ended nothing owns a slot. -/
theorem Conserved.clientCount_eq_zero {s : Slots limit} (hc : s.Conserved) (h : s.AllEnded) :
    s.clientCount = 0 := by
  obtain ⟨hconns, hclosing⟩ := h
  have hclients : s.clients = ∅ := by
    rw [Finset.eq_empty_iff_forall_notMem]
    intro i hi
    have hfinished := hconns _ (List.mem_of_getElem? (hc.clients i hi))
    cases hfinished
  have hreserved : s.reservations = 0 := by
    refine List.countP_eq_zero.mpr fun pc hpc => ?_
    have hfinished := hconns pc hpc
    cases pc <;> simp_all [ConnPc.finished, ConnPc.reserved]
  have htaken : s.closing.flatten = [] := List.flatten_eq_nil_iff.mpr hclosing
  rw [hc.count, hclients, hreserved, htaken]
  rfl

/-- In every reachable state the counter is the number of registered clients, of handlers that
hold a reservation, and of clients that `closeClients` has taken out and not released. It is
between zero and the limit, and zero once everything has ended. -/
theorem slots_conserved (maxClients : Int) {s : Slots (effectiveMaxClients maxClients)}
    (h : Reach step anyStep (new maxClients) s) :
    s.clientCount = s.clients.card + s.reservations + s.taken.card
      ∧ 0 ≤ s.clientCount ∧ s.clientCount ≤ effectiveMaxClients maxClients
      ∧ (s.AllEnded → s.clientCount = 0) := by
  have hc : s.Conserved := h.invariant (new_conserved maxClients) fun _ _ _ hc _ hs => hc.step hs
  have hcount := hc.count
  rw [← List.toFinset_card_of_nodup hc.nodup] at hcount
  refine ⟨hcount, ?_, hc.capped, hc.clientCount_eq_zero⟩
  omega

/-- All three kinds of owner at once: client 0 is in the hands of `closeClients`, the upgrade of
connection 1 has failed, client 2 is registered, and connection 3 has found no slot. -/
theorem slots_conserved_each :
    ∃ s : Slots (effectiveMaxClients 3), Reach step anyStep (new 3) s
      ∧ s.clients = {2} ∧ s.reservations = 1 ∧ s.taken = {0} ∧ s.conns[3]? = some .rejected
      ∧ s.clientCount = s.clients.card + s.reservations + s.taken.card
      ∧ 0 ≤ s.clientCount ∧ s.clientCount ≤ effectiveMaxClients 3
      ∧ (s.AllEnded → s.clientCount = 0) := by
  obtain ⟨s, hs, htest⟩ := Trans.exists_reach_of_exec step (new 3)
    (List.flatten [List.replicate 4 .connect, List.replicate 4 (.handler 0 true),
      [.closeClients [0]], List.replicate 3 (.handler 1 false), List.replicate 4 (.handler 2 true),
      [.handler 3 true]])
    (fun s : Slots (effectiveMaxClients 3) => decide (s.clients = {2} ∧ s.reservations = 1
      ∧ s.taken = {0} ∧ s.conns[3]? = some ConnPc.rejected))
    (by decide +kernel)
  obtain ⟨hclients, hreserved, htaken, hrejected⟩ := of_decide_eq_true htest
  exact ⟨s, hs, hclients, hreserved, htaken, hrejected, slots_conserved 3 hs⟩

end Slots

end GreenThreads.Web
