import GreenThreads.Lib.FixedWindow
import GreenThreads.Lib.Trans
import GreenThreads.Web.Clients
import Mathlib.Algebra.Order.Ring.Int

/-!
# GreenThreads — the message rate of a client (`web/server.go`)

The handler of a connection makes a client (`newClient`, which reads the clock), puts it into
`clients`, and asks `allowMessage` about every message it reads. `allowMessage` holds `clientsMu`
from its look into the map to its last write and reads the clock in between, so that a call is one
step. `newClient` does not hold the mutex: other connections may get answers between its reading
and the registration. `unregister` and `closeClients` take clients out of the map.

* `Client.allowMessage` — the window of one client, and `Client.allowMessage_window`: it is the
  limiter of `FixedWindow`;
* `RateServer` — the connections and the steps on their clients, in any interleaving;
* `RateServer.Paced` — what every step keeps of the messages that were let through;
* `allowMessage_rate` — the rate of one client in every run.

Times and durations are in nanoseconds. The clock does not go back, as the readings of `time.Now`
carry Go's monotonic clock. Left out: what is done with a message, and the slots of `clientCount`
(`Web.Clients`).
-/

namespace GreenThreads.Web

open FixedWindow
open Trans (Reach anyStep exec)

/-! ## One client -/

/-- `time.Second`. -/
def second : Int := 1000000000

theorem second_pos : 0 < second := by decide

/-- `now.Sub(then)`: a difference that is no `time.Duration` becomes the nearest one. -/
def timeSub (now before : Int) : Int :=
  max (-9223372036854775808) (min 9223372036854775807 (now - before))

/-- `NewServerWithConfig`'s treatment of `MessagesPerSecond`. -/
def effectiveMessagesPerSecond (messagesPerSecond : Int) : Nat :=
  if messagesPerSecond ≤ 0 then 30 else messagesPerSecond.toNat

/-- The fields of `type client struct` that the limit is about. -/
structure Client where
  windowStart : Int
  messageCount : Nat := 0
  deriving DecidableEq, Repr

/-- `newClient`. -/
def newClient (now : Int) : Client := { windowStart := now }

namespace Client

/-- `allowMessage` on a client that is in the map. -/
def allowMessage (limit : Nat) (cl : Client) (now : Int) : Bool × Client :=
  -- a window that is a second old is over
  let cl :=
    if second ≤ timeSub now cl.windowStart then
      { cl with windowStart := now, messageCount := 0 }
    else cl
  if limit ≤ cl.messageCount then (false, cl)
  else (true, { cl with messageCount := cl.messageCount + 1 })

/-- The client as a counter of windows. -/
def window (cl : Client) : Counter Int := ⟨cl.windowStart, cl.messageCount⟩

/-- Cutting off a difference does not move it across a second. -/
theorem second_le_timeSub {now before : Int} :
    second ≤ timeSub now before ↔ before + second ≤ now := by
  unfold second timeSub
  omega

/-- `allowMessage` is the limiter with windows of a second. -/
theorem allowMessage_window (limit : Nat) (cl : Client) (now : Int) :
    cl.window.offer second limit now
      = ((cl.allowMessage limit now).1, (cl.allowMessage limit now).2.window) := by
  -- both first find the window of `now`
  have hroll : cl.window.roll second now
      = (if second ≤ timeSub now cl.windowStart then { windowStart := now } else cl).window := by
    by_cases hout : cl.windowStart + second ≤ now
    · rw [if_pos (second_le_timeSub.mpr hout)]
      exact if_pos hout
    · rw [if_neg (mt second_le_timeSub.mp hout)]
      exact if_neg hout
  unfold Counter.offer Counter.take allowMessage
  rw [hroll]
  generalize (if second ≤ timeSub now cl.windowStart then { windowStart := now } else cl) = cl'
  by_cases hfull : limit ≤ cl'.messageCount
  · simp only [if_pos hfull]
    exact if_pos hfull
  · simp only [if_neg hfull]
    exact if_neg hfull

end Client

/-! ## The server -/

/-- Where the client of a connection is. -/
inductive ClientState where
  /-- `newClient` has returned, and the client is not in the map yet. -/
  | made (cl : Client)
  | registered (cl : Client)
  /-- `unregister` or `closeClients` has taken it out. -/
  | removed
  deriving DecidableEq, Repr

/-- A connection with the times of its messages that were let through, the latest first. No step
reads these times. -/
structure Connection where
  client : ClientState
  accepted : List Int := []
  deriving DecidableEq, Repr

namespace Connection

/-- `s.clients[conn] = cl`. -/
def register (c : Connection) : Connection :=
  match c.client with
  | .made cl => { c with client := .registered cl }
  | .registered _ | .removed => c

/-- `delete(s.clients, conn)`. -/
def remove (c : Connection) : Connection :=
  match c.client with
  | .registered _ => { c with client := .removed }
  | .made _ | .removed => c

end Connection

/-- The connections, each named by its place, and the last reading of the clock. -/
structure RateServer where
  now : Int
  conns : List Connection := []
  deriving DecidableEq, Repr

namespace RateServer

inductive Label where
  /-- A connection gets its client. -/
  | newClient (now : Int)
  | register (i : ConnID)
  | unregister (i : ConnID)
  | closeClients
  /-- A message of connection `i` gets to `allowMessage`, which reads `now`. -/
  | message (i : ConnID) (now : Int)

/-- A server that has no clients. -/
def new (now : Int) : RateServer := { now := now }

variable (limit : Nat) (s : RateServer)

/-- `allowMessage`. -/
def allowMessage (i : ConnID) (now : Int) : Bool × RateServer :=
  match s.conns[i]? with
  | some ⟨.registered cl, accepted⟩ =>
    let (ok, cl) := cl.allowMessage limit now
    let accepted := if ok then now :: accepted else accepted
    (ok, { now := now, conns := s.conns.set i ⟨.registered cl, accepted⟩ })
  -- `s.clients[conn]` is nil
  | some ⟨.made _, _⟩ | some ⟨.removed, _⟩ | none => (false, s)

/-- One step; a reading of the clock is not before the last one. -/
def step : Label → Option RateServer
  | .newClient now =>
    if s.now ≤ now then
      some { now := now, conns := s.conns ++ [{ client := .made (Web.newClient now) }] }
    else none
  | .register i => s.conns[i]?.map fun c => { s with conns := s.conns.set i c.register }
  | .unregister i => s.conns[i]?.map fun c => { s with conns := s.conns.set i c.remove }
  | .closeClients => some { s with conns := s.conns.map Connection.remove }
  | .message i now => if s.now ≤ now then some (s.allowMessage limit i now).2 else none

end RateServer

/-! ## What is kept of the messages -/

/-- The client of a connection, as long as its handler can use it. -/
def ClientState.inUse : ClientState → Option Client
  | .made cl | .registered cl => some cl
  | .removed => none

/-- The messages that were let through can be put into windows of a second, the last of which is
the client's own. -/
def Connection.Paced (limit : Nat) (now : Int) (c : Connection) : Prop :=
  ∃ log : List (Stamp Int), log.map Stamp.time = c.accepted ∧ Windowed second limit log
    ∧ ∀ cl ∈ c.client.inUse, Counted second limit log cl.window now

namespace Connection.Paced

variable {limit : Nat} {now now' : Int} {c : Connection} {cl : Client}

theorem later (h : c.Paced limit now) (hnow : now ≤ now') : c.Paced limit now' := by
  obtain ⟨log, htimes, hlog, hcl⟩ := h
  exact ⟨log, htimes, hlog, fun cl hin => (hcl cl hin).later hnow⟩

/-- A client may be put into the map, or taken out of it. -/
theorem of_inUse {c' : Connection} (h : c.Paced limit now) (haccepted : c'.accepted = c.accepted)
    (hinUse : ∀ cl ∈ c'.client.inUse, cl ∈ c.client.inUse) : c'.Paced limit now := by
  obtain ⟨log, htimes, hlog, hcl⟩ := h
  exact ⟨log, htimes.trans haccepted.symm, hlog, fun cl hin => hcl cl (hinUse cl hin)⟩

theorem register (h : c.Paced limit now) : c.register.Paced limit now := by
  obtain ⟨client, accepted⟩ := c
  cases client with
  | made cl => exact h.of_inUse rfl fun _ hin => hin
  | registered cl | removed => exact h

theorem remove (h : c.Paced limit now) : c.remove.Paced limit now := by
  obtain ⟨client, accepted⟩ := c
  cases client with
  | registered cl => exact h.of_inUse rfl fun cl hin => by cases hin
  | made cl | removed => exact h

theorem newClient (limit : Nat) (now : Int) :
    Connection.Paced limit now { client := .made (Web.newClient now) } := by
  have hempty : Counted second limit [] (Web.newClient now).window now := .empty le_rfl
  refine ⟨[], rfl, hempty.toWindowed, fun cl hin => ?_⟩
  cases hin
  exact hempty

theorem full_of_refused {accepted : List Int}
    (h : Connection.Paced limit now ⟨.registered cl, accepted⟩) (hnow : now ≤ now')
    (hrefused : (cl.allowMessage limit now').1 = false) :
    limit ≤ accepted.countP fun t => now' - second < t ∧ t ≤ now' := by
  obtain ⟨log, htimes, -, hcl⟩ := h
  have hoffer := cl.allowMessage_window limit now'
  rw [hrefused] at hoffer
  obtain ⟨-, hfull⟩ := (hcl cl rfl).offer_false second_pos hnow hoffer
  subst htimes
  rw [List.countP_map]
  refine hfull.trans (List.countP_mono_left fun e _ hin => ?_)
  obtain ⟨hrecent, hpast⟩ := of_decide_eq_true hin
  exact decide_eq_true ⟨by omega, hpast⟩

theorem allowMessage {accepted : List Int}
    (h : Connection.Paced limit now ⟨.registered cl, accepted⟩) (hnow : now ≤ now') :
    Connection.Paced limit now' ⟨.registered (cl.allowMessage limit now').2,
      if (cl.allowMessage limit now').1 then now' :: accepted else accepted⟩ := by
  obtain ⟨log, htimes, -, hcl⟩ := h
  have hoffer := cl.allowMessage_window limit now'
  -- the log grows with the accepted messages
  cases hok : (cl.allowMessage limit now').1 with
  | true =>
    rw [hok] at hoffer
    have hcounted := (hcl cl rfl).offer_true second_pos hnow hoffer
    refine ⟨_, ?_, hcounted.toWindowed, fun cl' hin => ?_⟩
    · simp [htimes]
    · cases hin
      exact hcounted
  | false =>
    rw [hok] at hoffer
    obtain ⟨hcounted, -⟩ := (hcl cl rfl).offer_false second_pos hnow hoffer
    refine ⟨log, ?_, hcounted.toWindowed, fun cl' hin => ?_⟩
    · simp [htimes]
    · cases hin
      exact hcounted

theorem countP_le (h : c.Paced limit now) (a : Int) (k : Nat) :
    c.accepted.countP (fun t => a ≤ t ∧ t < a + k * second) ≤ (k + 1) * limit := by
  obtain ⟨log, htimes, hlog, -⟩ := h
  have hbound := hlog.countP_time_le a k
  rw [nsmul_eq_mul] at hbound
  rw [← htimes, List.countP_map]
  exact hbound

end Connection.Paced

namespace RateServer

def Paced (limit : Nat) (s : RateServer) : Prop := ∀ c ∈ s.conns, c.Paced limit s.now

namespace Paced

variable {limit : Nat} {s s' : RateServer} {i : ConnID} {now : Int}

/-- One connection changes, and time passes for the others. -/
theorem set {c : Connection} (h : s.Paced limit) (hnow : s.now ≤ now) (hc : c.Paced limit now) :
    Paced limit { now := now, conns := s.conns.set i c } := by
  intro c' hc'
  rcases List.mem_or_eq_of_mem_set hc' with hold | rfl
  · exact (h c' hold).later hnow
  · exact hc

theorem allowMessage (h : s.Paced limit) (hnow : s.now ≤ now) :
    (s.allowMessage limit i now).2.Paced limit := by
  unfold RateServer.allowMessage
  split
  · next cl accepted hc => exact h.set hnow ((h _ (List.mem_of_getElem? hc)).allowMessage hnow)
  all_goals exact h

theorem step {l : Label} (h : s.Paced limit) (hstep : s.step limit l = some s') :
    s'.Paced limit := by
  cases l with
  | newClient now =>
    simp only [RateServer.step] at hstep
    split at hstep
    · next hnow =>
      cases hstep
      intro c hc
      rcases List.mem_append.mp hc with hold | hnew
      · exact (h c hold).later hnow
      · rw [List.mem_singleton.mp hnew]
        exact .newClient limit now
    · cases hstep
  | register i =>
    obtain ⟨c, hc, rfl⟩ := Option.map_eq_some_iff.mp hstep
    exact h.set le_rfl (h c (List.mem_of_getElem? hc)).register
  | unregister i =>
    obtain ⟨c, hc, rfl⟩ := Option.map_eq_some_iff.mp hstep
    exact h.set le_rfl (h c (List.mem_of_getElem? hc)).remove
  | closeClients =>
    cases hstep
    intro c hc
    obtain ⟨c, hin, rfl⟩ := List.mem_map.mp hc
    exact (h c hin).remove
  | message i now =>
    simp only [RateServer.step] at hstep
    split at hstep
    · next hnow =>
      cases hstep
      exact h.allowMessage hnow
    · cases hstep

theorem reach {start : Int} (hs : Reach (RateServer.step limit) anyStep (new start) s) :
    s.Paced limit :=
  hs.invariant (by simp [new, Paced]) fun _ _ _ h _ hstep => h.step hstep

end Paced

/-- The rate of one client, whatever the other connections do meanwhile: an interval of `k` seconds
lets no more than `k + 1` times the limit through, and a message is refused only if the second
before it has let the whole limit through. -/
theorem allowMessage_rate {messagesPerSecond start : Int} {s : RateServer} {i : ConnID}
    {c : Connection}
    (hs : Reach (step (effectiveMessagesPerSecond messagesPerSecond)) anyStep (new start) s)
    (hc : s.conns[i]? = some c) :
    (∀ (a : Int) (k : Nat), c.accepted.countP (fun t => a ≤ t ∧ t < a + k * second)
      ≤ (k + 1) * effectiveMessagesPerSecond messagesPerSecond)
    ∧ ∀ (cl : Client) (now : Int), c.client = .registered cl → s.now ≤ now →
      (s.allowMessage (effectiveMessagesPerSecond messagesPerSecond) i now).1 = false →
      effectiveMessagesPerSecond messagesPerSecond
        ≤ c.accepted.countP fun t => now - second < t ∧ t ≤ now := by
  have hpaced := Paced.reach hs c (List.mem_of_getElem? hc)
  refine ⟨hpaced.countP_le, fun cl now hcl hnow hrefused => ?_⟩
  obtain ⟨client, accepted⟩ := c
  subst hcl
  refine hpaced.full_of_refused hnow ?_
  simpa only [allowMessage, hc] using hrefused

/-- One message a second: the second message within ten nanoseconds is refused. -/
theorem allowMessage_rate_one :
    let s : RateServer := ⟨5, [⟨.registered ⟨0, 1⟩, [5]⟩]⟩
    Reach (step (effectiveMessagesPerSecond 1)) anyStep (new 0) s
    ∧ (s.allowMessage (effectiveMessagesPerSecond 1) 0 10).1 = false
    ∧ (∀ (a : Int) (k : Nat), [5].countP (fun t => a ≤ t ∧ t < a + k * second)
      ≤ (k + 1) * effectiveMessagesPerSecond 1)
    ∧ effectiveMessagesPerSecond 1 ≤ [5].countP fun t => 10 - second < t ∧ t ≤ 10 := by
  intro s
  have hs : Reach (step (effectiveMessagesPerSecond 1)) anyStep (new 0) s :=
    .of_exec (show exec _ (new 0) [.newClient 0, .register 0, .message 0 5] = some s by decide)
  have hrefused : (s.allowMessage (effectiveMessagesPerSecond 1) 0 10).1 = false := by decide
  obtain ⟨hrate, hfull⟩ := allowMessage_rate hs (i := 0) rfl
  exact ⟨hs, hrefused, hrate, hfull _ 10 rfl (by decide) hrefused⟩

end RateServer

end GreenThreads.Web
