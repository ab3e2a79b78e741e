import GreenThreads.Sync.Tracking

/-!
# GreenThreads — one wait queue served from the front

A primitive with a single wait queue gives its service in three ways: at once to a call that
finds nobody waiting, to the front of the queue, or not at all to a call that withdraws.
`Queued` ties the table of calls, the queue and the list of calls served so far to one
ledger. One lemma for each of the ways keeps it; arrival order and "a call ended well exactly
if it was served" are read off it.
-/

namespace GreenThreads.Sync

variable {κ ρ : Type*}

/-- `queue` is what `log` has waiting, `grants` is what it has served, and the calls stand
where the ledger says. `ok` selects the results of a served call, `gone` those of a parked call
that gave up. -/
structure Queued (calls : Calls κ ρ) (queue : List Waiter) (grants : List Nat)
    (ok gone : ρ → Bool) (log : Ledger Nat) : Prop where
  grants_log : grants = log.served
  queue_log : queue.map Waiter.call = log.waiting
  tracks : Tracks calls (fun _ => true) ok gone log log.served

namespace Queued

variable {calls : Calls κ ρ} {queue : List Waiter} {grants : List Nat} {ok gone : ρ → Bool}
  {log : Ledger Nat}

theorem empty : Queued ([] : Calls κ ρ) [] [] ok gone .empty where
  grants_log := rfl
  queue_log := rfl
  tracks := Tracks.empty

/-! ## Consequences -/

/-- A call is parked exactly if its waiter record is in the queue. -/
theorem mem_queue_iff (h : Queued calls queue grants ok gone log) (c : Nat) :
    c ∈ queue.map Waiter.call ↔ calls.phaseOf c = some .parked := by
  rw [h.queue_log, h.tracks.parked_iff]
  exact ⟨fun hc => hc.2, fun hc => ⟨Calls.is_true_of_phaseOf hc, hc⟩⟩

theorem queue_nodup (h : Queued calls queue grants ok gone log) :
    (queue.map Waiter.call).Nodup := by
  rw [h.queue_log]
  exact log.waiting_nodup

/-- Those served so far and those queued are the calls that were not turned away, in the order
of their first sections. -/
theorem fifo (h : Queued calls queue grants ok gone log) :
    grants ++ queue.map Waiter.call
      = (List.range calls.length).filter (calls.live (fun _ => true) ok) := by
  rw [h.grants_log, h.queue_log, h.tracks.fifo]

/-- A settled call ended well exactly if it was served. -/
theorem ok_iff_granted (h : Queued calls queue grants ok gone log) {c : Nat} {r : ρ}
    (hc : calls.resultOf c = some r) : ok r = true ↔ c ∈ grants := by
  have hmade : calls.Is (fun _ => true) c := Calls.is_true_of_resultOf hc
  rw [h.grants_log, h.tracks.granted_iff, hc]
  simp [hmade]

/-! ## A new call -/

/-- A call returns without service. -/
theorem ret (h : Queued calls queue grants ok gone log) (op : κ) {r : ρ} (hok : ok r = false) :
    Queued (calls ++ [⟨op, .returned r⟩]) queue grants ok gone log where
  grants_log := h.grants_log
  queue_log := h.queue_log
  tracks := by simpa [hok] using h.tracks.append_returned op r

/-- A call is served at once, because nobody is waiting. -/
theorem immediate (h : Queued calls queue grants ok gone log) (op : κ) {r : ρ}
    (hok : ok r = true) (hgone : gone r = false) (hq : queue = []) :
    Queued (calls ++ [⟨op, .returned r⟩]) queue (grants ++ [calls.length]) ok gone
      ((log.arrive calls.length).serve 1) := by
  have hnew := h.tracks.next_not_arrived
  have hwait : log.waiting = [] := by rw [← h.queue_log, hq, List.map_nil]
  have hserved := log.served_of_immediate hnew hwait
  constructor
  case grants_log => rw [hserved, h.grants_log]
  case queue_log => rw [log.waiting_of_immediate hnew hwait, hq, List.map_nil]
  case tracks =>
    rw [hserved]
    exact h.tracks.append_served op rfl hok hgone hwait

/-- A call joins the back of the queue. -/
theorem park (h : Queued calls queue grants ok gone log) (op : κ) (f : FiberRef) :
    Queued (calls ++ [⟨op, .parked⟩]) (queue ++ [⟨calls.length, f⟩]) grants ok gone
      (log.arrive calls.length) where
  grants_log := by rw [log.arrive_served, h.grants_log]
  queue_log := by
    rw [List.map_append, h.queue_log, log.arrive_waiting h.tracks.next_not_arrived]
    rfl
  tracks := by simpa using h.tracks.append_parked op rfl

/-! ## Leaving the queue -/

/-- The first `n` waiters are served. -/
theorem serve (h : Queued calls queue grants ok gone log) (n : Nat) {r : ρ}
    (hok : ok r = true) (hgone : gone r = false) :
    Queued (calls.wakeAll ((queue.take n).map Waiter.call) r) (queue.drop n)
      (grants ++ (queue.take n).map Waiter.call) ok gone (log.serve n) := by
  have htake : (queue.take n).map Waiter.call = log.waiting.take n := by
    rw [List.map_take, h.queue_log]
  constructor
  case grants_log => rw [htake, Ledger.serve_served, h.grants_log]
  case queue_log => rw [Ledger.serve_waiting, ← h.queue_log, List.map_drop]
  case tracks =>
    rw [htake, Ledger.serve_served]
    exact h.tracks.serve n hok hgone

/-- The oldest waiter is served. -/
theorem handoff {w : Waiter} {rest : List Waiter}
    (h : Queued calls (w :: rest) grants ok gone log) {r : ρ} (hok : ok r = true)
    (hgone : gone r = false) :
    Queued (calls.setPhase w.call (.woken r)) rest (grants ++ [w.call]) ok gone (log.serve 1) :=
  h.serve 1 hok hgone

/-- Every waiter is served. -/
theorem serveAll (h : Queued calls queue grants ok gone log) {r : ρ} (hok : ok r = true)
    (hgone : gone r = false) :
    Queued (calls.wakeAll (queue.map Waiter.call) r) [] (grants ++ queue.map Waiter.call) ok gone
      (log.serve queue.length) := by
  have hall := h.serve queue.length hok hgone
  rwa [List.take_length, List.drop_length] at hall

/-- A woken call returns what was written in its waiter record. -/
theorem resume (h : Queued calls queue grants ok gone log) {c : Nat} {r : ρ}
    (hc : calls.phaseOf c = some (.woken r)) :
    Queued (calls.setPhase c (.returned r)) queue grants ok gone log :=
  { h with tracks := h.tracks.resume hc }

/-- A parked call withdraws and returns a bad result. -/
theorem withdraw (h : Queued calls queue grants ok gone log) {c : Nat} {r : ρ}
    (hc : calls.phaseOf c = some .parked) (hok : ok r = false) (hgone : gone r = true) :
    Queued (calls.setPhase c (.returned r)) (removeWaiter Waiter.call queue c) grants ok gone
      (log.drop (· == c)) where
  grants_log := h.grants_log
  queue_log := by rw [map_removeWaiter_eq_filter c h.queue_nodup, h.queue_log, Ledger.drop_waiting]
  tracks := by
    have hmem : c ∈ log.waiting := by rwa [← h.queue_log, h.mem_queue_iff]
    exact h.tracks.withdraw hmem hok hgone

end Queued

end GreenThreads.Sync
