import GreenThreads.EventTracker
import GreenThreads.Lib.BoundedLog
import GreenThreads.Lib.GoSlice
import GreenThreads.Lib.Trans
import Mathlib.Data.Int.ModEq
import Mathlib.Data.List.OfFn

/-!
# GreenThreads — the event tracker as a bounded log (`internal/metrics/metrics.go`)

Three levels of the one ring buffer:

* `EventRing` — the statements as written, on `int` indices that may leave the array;
* `EventTracker` — the same with indices below the capacity as their type (`ring_*` lemmas);
* `BoundedLog` — the last events since `Clear` (`getEvents_step`).

`event_tracker_bounded_log` reads the lowest level by the highest.
-/

namespace GreenThreads

/-- `type EventTracker struct`, with Go's slice and integers. -/
structure EventRing where
  events : List FiberEvent
  head : Int
  tail : Int
  count : Int
  capacity : Int

namespace EventRing

/-- `NewEventTracker`. -/
def new (capacity : Int) : Option EventRing :=
  let capacity := if capacity ≤ 0 then 1000 else capacity
  (GoSlice.make {} capacity).map fun events => ⟨events, 0, 0, 0, capacity⟩

variable (et : EventRing)

/-- `RecordEvent`. -/
def recordEvent (event : FiberEvent) : Option EventRing := do
  let events ← GoSlice.set et.events et.tail event
  let tail ← GoSlice.rem (et.tail + 1) et.capacity
  if et.count < et.capacity then
    some { et with events := events, tail := tail, count := et.count + 1 }
  else
    let head ← GoSlice.rem (et.head + 1) et.capacity
    some { et with events := events, tail := tail, head := head }

/-- The event at place `i` of `GetEvents`. -/
def eventAt (i : Nat) : Option FiberEvent := do
  let idx ← GoSlice.rem (et.head + i) et.capacity
  GoSlice.get et.events idx

/-- `GetEvents`. -/
def getEvents : Option (List FiberEvent) :=
  if et.count = 0 then some []
  else do
    let result ← GoSlice.make {} et.count
    GoSlice.fill (fun i => i) et.eventAt et.count.toNat result

/-- The event of round `i` of `GetRecentEvents`. -/
def recentAt (i : Nat) : Option FiberEvent := do
  let back ← GoSlice.rem (et.tail - 1 - i) et.capacity
  let idx ← GoSlice.rem (back + et.capacity) et.capacity
  GoSlice.get et.events idx

/-- `GetRecentEvents`. -/
def getRecentEvents (n : Int) : Option (List FiberEvent) :=
  if n ≤ 0 ∨ et.count = 0 then some []
  else do
    let n := if et.count < n then et.count else n
    let result ← GoSlice.make {} n
    GoSlice.fill (fun i => n - 1 - i) et.recentAt n.toNat result

/-- `GetCount`. -/
def getCount : Int := et.count

/-- `Clear`. -/
def clear : EventRing :=
  { et with events := et.events.map fun _ => {}, head := 0, tail := 0, count := 0 }

/-- One call of a writer. -/
def step : BoundedLog.Op FiberEvent → Option EventRing
  | .record event => et.recordEvent event
  | .clear => some et.clear

end EventRing

/-! ## Indices in range -/

namespace EventTracker

variable (et : EventTracker)

/-- The ring that a tracker stands for. -/
def ring : EventRing := ⟨List.ofFn et.events, et.head, et.tail, et.count, et.capacity⟩

/-- One call of a writer. -/
def step : BoundedLog.Op FiberEvent → EventTracker
  | .record event => et.recordEvent event
  | .clear => et.clear

theorem ring_new (capacity : Int) : EventRing.new capacity = some (new capacity).ring := by
  -- one size for both, so that the default is not looked at
  have hnew : ∀ (size : Nat) (hsize : 0 < size),
      (GoSlice.make ({} : FiberEvent) size).map (fun events => EventRing.mk events 0 0 0 size)
        = some (ring ⟨size, hsize, fun _ => {}, ⟨0, hsize⟩, ⟨0, hsize⟩, 0, Nat.zero_le _⟩) := by
    intro size hsize
    simp [GoSlice.make, ring, List.ofFn_const]
  have hsize : (if capacity ≤ 0 then 1000 else capacity)
      = ((if capacity ≤ 0 then 1000 else capacity.toNat : Nat) : Int) := by
    split <;> omega
  unfold EventRing.new
  dsimp only
  rw [hsize]
  exact hnew _ _

theorem ring_recordEvent (event : FiberEvent) :
    et.ring.recordEvent event = some (et.recordEvent event).ring := by
  have hrem : ∀ i : Nat,
      GoSlice.rem ((i : Int) + 1) et.capacity = some (((i + 1) % et.capacity : Nat) : Int) :=
    fun i => GoSlice.rem_natCast (i + 1) et.capacity_pos
  simp only [EventRing.recordEvent, ring, GoSlice.set_ofFn, hrem, Option.bind_eq_bind,
    Option.bind_some, Int.ofNat_lt, recordEvent, index]
  by_cases hroom : et.count < et.capacity
  · simp only [if_pos hroom]
    rfl
  · simp only [if_neg hroom]

theorem ring_clear : et.ring.clear = et.clear.ring := by
  simp [EventRing.clear, ring, clear, List.map_ofFn, Function.comp_def]

theorem ring_step (op : BoundedLog.Op FiberEvent) : et.ring.step op = some (et.step op).ring := by
  cases op with
  | record event => exact et.ring_recordEvent event
  | clear => exact congrArg some et.ring_clear

/-- What the loop of a reader reads in round `i`. -/
theorem ring_get (n : Nat) : GoSlice.get et.ring.events ((n % et.capacity : Nat) : Int)
    = some (et.events (et.index n)) :=
  GoSlice.get_ofFn et.events (et.index n)

theorem ring_eventAt (i : Nat) :
    et.ring.eventAt i = some (et.events (et.index (et.head + i))) := by
  have hrem := GoSlice.rem_natCast (et.head + i) et.capacity_pos
  push_cast at hrem
  simp only [EventRing.eventAt]
  rw [show et.ring.head = et.head from rfl, show et.ring.capacity = et.capacity from rfl, hrem]
  exact et.ring_get (et.head + i)

/-- `GetEvents` stays in range and reads the window of the ring. -/
theorem ring_getEvents : et.ring.getEvents = some et.getEvents := by
  unfold EventRing.getEvents
  split
  · next hzero =>
    have : et.count = 0 := by simpa [ring] using hzero
    simp [getEvents, this]
  · have hmake : GoSlice.make ({} : FiberEvent) et.ring.count
        = some (List.replicate et.count {}) := by
      simp [GoSlice.make, ring]
    obtain ⟨r, hr, hlen, hget⟩ := GoSlice.fill_spec (l := List.replicate et.count {})
      (n := et.count) (fun i => i) (fun i _ => et.ring_eventAt i) (fun _ _ => rfl) (by simp)
      (fun _ _ _ _ h => h)
    simp only [hmake, Option.bind_eq_bind, Option.bind_some]
    refine hr.trans (congrArg some (List.ext_getElem ?_ ?_))
    · simp [hlen, getEvents]
    · intro i hi hi'
      have hlt : i < et.count := by simpa [hlen] using hi
      have := hget i hlt
      rw [List.getElem?_eq_getElem hi] at this
      simpa [getEvents] using this

/-- Going back from the tail, with the correction for Go's remainder. -/
theorem recentIndex_cast (i : Nat) :
    (et.recentIndex i : Int) = ((et.tail : Int) - 1 - i) % et.capacity := by
  have hpos : (0 : Int) < et.capacity := by exact_mod_cast et.capacity_pos
  rw [recentIndex, GoSlice.tmod_add_tmod _ hpos, Int.toNat_of_nonneg]
  exact Int.emod_nonneg _ (by omega)

theorem ring_recentAt (i : Nat) :
    et.ring.recentAt i = some (et.events (et.index (et.recentIndex i))) := by
  have hpos : (0 : Int) < et.capacity := by exact_mod_cast et.capacity_pos
  have hlt : et.recentIndex i < et.capacity := by
    have := Int.emod_lt_of_pos ((et.tail : Int) - 1 - i) hpos
    rw [← recentIndex_cast] at this
    exact_mod_cast this
  have hget := et.ring_get (et.recentIndex i)
  rw [Nat.mod_eq_of_lt hlt, recentIndex_cast] at hget
  simp only [EventRing.recentAt, GoSlice.rem]
  rw [show et.ring.tail = et.tail from rfl, show et.ring.capacity = et.capacity from rfl]
  simp only [if_neg hpos.ne', Option.bind_eq_bind, Option.bind_some, GoSlice.tmod_add_tmod _ hpos]
  exact hget

/-- `GetRecentEvents` stays in range, too. -/
theorem ring_getRecentEvents (n : Int) :
    et.ring.getRecentEvents n = some (et.getRecentEvents n) := by
  unfold EventRing.getRecentEvents getRecentEvents
  by_cases hnone : n ≤ 0 ∨ et.count = 0
  · rw [if_pos hnone, if_pos (by simpa [ring] using hnone)]
  · rw [if_neg hnone, if_neg (by simpa [ring] using hnone)]
    -- the number of rounds
    obtain ⟨m, hm, hm'⟩ : ∃ m : Nat, (if (et.count : Int) < n then (et.count : Int) else n) = m ∧
        (if (et.count : Int) < n then et.count else n.toNat) = m := by
      split
      · exact ⟨et.count, rfl, rfl⟩
      · exact ⟨n.toNat, by omega, rfl⟩
    rw [show et.ring.count = et.count from rfl]
    simp only [hm, hm', GoSlice.make, Int.natCast_nonneg, if_true, Int.toNat_natCast,
      Option.bind_eq_bind, Option.bind_some]
    obtain ⟨r, hr, hlen, hget⟩ := GoSlice.fill_spec (l := List.replicate m {}) (n := m)
      (fun i => m - 1 - i) (fun i _ => et.ring_recentAt i)
      (fun i hi => show (m : Int) - 1 - i = (m - 1 - i : Nat) by omega)
      (fun i hi => by simp; omega) (fun i hi j hj h => by omega)
    refine hr.trans (congrArg some (List.ext_getElem ?_ ?_))
    · simp [hlen]
    · intro j hj hj'
      have hlt : j < m := by simpa [hlen] using hj
      have := hget (m - 1 - j) (by omega)
      rw [show m - 1 - (m - 1 - j) = j by omega, List.getElem?_eq_getElem hj] at this
      simpa using this

/-! ## The window -/

/-- The next place to write is the one after the window. -/
def Aligned : Prop := (et.tail : Nat) = (et.head + et.count) % et.capacity

variable {et}

theorem aligned_new (capacity : Int) : (new capacity).Aligned := by
  simp [Aligned, new]

theorem aligned_clear : et.clear.Aligned := by
  simp [Aligned, clear]

theorem Aligned.recordEvent (h : et.Aligned) (event : FiberEvent) :
    (et.recordEvent event).Aligned := by
  have hle := et.count_le
  unfold Aligned at h ⊢
  by_cases hroom : et.count < et.capacity
  · simp [EventTracker.recordEvent, index, hroom, h, Nat.add_assoc]
  · have hfull : et.count = et.capacity := by omega
    simp [EventTracker.recordEvent, index, h, hfull]

/-- Places less than a round apart are different. -/
theorem index_ne {n k : Nat} (hk : 0 < k) (hlt : k < et.capacity) :
    et.index n ≠ et.index (n + k) := by
  intro h
  have hmod : n + 0 ≡ n + k [MOD et.capacity] := congrArg Fin.val h
  have := (Nat.ModEq.add_left_cancel' n hmod).eq_of_lt_of_lt et.capacity_pos hlt
  omega

theorem Aligned.tail_eq (h : et.Aligned) : et.tail = et.index (et.head + et.count) := Fin.ext h

/-- How many of the oldest events a further one pushes out. -/
def overflow (et : EventTracker) : Nat := et.count + 1 - et.capacity

theorem count_recordEvent (event : FiberEvent) :
    (et.recordEvent event).count = et.count + 1 - et.overflow := by
  have hle := et.count_le
  have hpos := et.capacity_pos
  unfold overflow
  simp only [recordEvent]
  split <;> omega

/-- The window starts at the oldest event that stays. -/
theorem index_recordEvent (event : FiberEvent) (i : Nat) :
    (et.recordEvent event).index ((et.recordEvent event).head + i)
      = et.index (et.head + (et.overflow + i)) := by
  have hle := et.count_le
  apply Fin.ext
  -- with room the head stays, without it moves on by one
  by_cases hroom : et.count < et.capacity
  · have hzero : et.overflow = 0 := Nat.sub_eq_zero_of_le hroom
    simp [recordEvent, index, hroom, hzero]
  · have hone : et.overflow = 1 := by
      unfold overflow
      omega
    simp [recordEvent, index, hroom, hone, Nat.add_assoc]

theorem events_recordEvent (event : FiberEvent) (i : Fin et.capacity) :
    (et.recordEvent event).events i = if i = et.tail then event else et.events i := rfl

/-- What the places of the old window and the one after it hold once the event is written. -/
theorem Aligned.getElem?_append (h : et.Aligned) (event : FiberEvent) {j : Nat}
    (hle : j ≤ et.count) (hfit : et.count - j < et.capacity) :
    (et.getEvents ++ [event])[j]?
      = some ((et.recordEvent event).events (et.index (et.head + j))) := by
  rw [events_recordEvent]
  obtain hlt | rfl := Nat.lt_or_eq_of_le hle
  · -- the place written to is less than a round away
    have hne : et.index (et.head + j) ≠ et.tail := by
      rw [h.tail_eq, show et.head + et.count = et.head + j + (et.count - j) by omega]
      exact index_ne (by omega) hfit
    simp [getEvents, List.getElem?_append_left, hlt, hne]
  · simp [getEvents, h.tail_eq]

/-- An event goes to the end of the window, and the oldest one leaves when there is no room. -/
theorem Aligned.getEvents_recordEvent (h : et.Aligned) (event : FiberEvent) :
    (et.recordEvent event).getEvents = (et.getEvents ++ [event]).rtake et.capacity := by
  have hle := et.count_le
  have hpos := et.capacity_pos
  have hlen : et.getEvents.length = et.count := by simp [getEvents]
  have hover : et.overflow = et.count + 1 - et.capacity := rfl
  apply List.ext_getElem?
  intro i
  rw [List.rtake, List.length_append, hlen, List.getElem?_drop, List.length_singleton, ← hover]
  by_cases hi : i < et.count + 1 - et.overflow
  · rw [h.getElem?_append event (by omega) (by omega), ← index_recordEvent event]
    simp [getEvents, count_recordEvent, hi]
  · have hnone : (et.getEvents ++ [event])[et.overflow + i]? = none := by
      simp [hlen]
      omega
    rw [hnone]
    simp [getEvents, count_recordEvent]
    omega

/-- Both readers walk the same window: `i` back from the tail is `i` back from its end. -/
theorem Aligned.index_recentIndex (h : et.Aligned) {i : Nat} (hi : i < et.count) :
    et.index (et.recentIndex i) = et.index (et.head + (et.count - 1 - i)) := by
  apply Fin.ext
  rw [← Int.ofNat_inj]
  have htail : ((et.tail : Nat) : Int) = (et.head + et.count : Int) % et.capacity := by
    rw [h]
    push_cast
    rfl
  have hback : ((et.count - 1 - i : Nat) : Int) = et.count - 1 - i := by omega
  simp only [index, Int.natCast_emod, Nat.cast_add, recentIndex_cast, htail, hback]
  rw [Int.emod_emod_of_dvd _ (dvd_refl _), Int.sub_sub, Int.emod_sub_emod]
  congr 1
  omega

/-- `GetRecentEvents(n)` is a suffix of `GetEvents`. -/
theorem Aligned.getRecentEvents_eq (h : et.Aligned) (n : Int) :
    et.getRecentEvents n = et.getEvents.rtake (min (max n 0).toNat et.count) := by
  have hlen : et.getEvents.length = et.count := by simp [getEvents]
  unfold getRecentEvents
  split
  · next hnone =>
    have hzero : min (max n 0).toNat et.count = 0 := by omega
    rw [hzero, List.rtake_zero]
  · next hsome =>
    have hsize : (if (et.count : Int) < n then et.count else n.toNat)
        = min (max n 0).toNat et.count := by
      split <;> omega
    simp only [hsize]
    generalize hm : min (max n 0).toNat et.count = m
    have hle : m ≤ et.count := by omega
    apply List.ext_getElem?
    intro j
    rw [List.rtake, hlen, List.getElem?_drop]
    by_cases hj : j < m
    · -- the loop fills the result from its end
      have hwin := h.index_recentIndex (i := m - 1 - j) (by omega)
      rw [show et.count - 1 - (m - 1 - j) = et.count - m + j by omega] at hwin
      have hlt : et.count - m + j < et.count := by omega
      simp [getEvents, hj, hlt, hwin]
    · have hge : et.count ≤ et.count - m + j := by omega
      simp [getEvents, hj, hge]

/-! ## Runs -/

theorem Aligned.step (h : et.Aligned) (op : BoundedLog.Op FiberEvent) : (et.step op).Aligned := by
  cases op with
  | record event => exact h.recordEvent event
  | clear => exact aligned_clear

/-- One call does to the window what it does to a bounded log. -/
theorem Aligned.getEvents_step (h : et.Aligned) (op : BoundedLog.Op FiberEvent) :
    (et.step op).getEvents = BoundedLog.retain et.capacity et.getEvents op := by
  cases op with
  | record event => exact h.getEvents_recordEvent event
  | clear => rfl

theorem capacity_step (op : BoundedLog.Op FiberEvent) : (et.step op).capacity = et.capacity := by
  cases op <;> rfl

/-- A sequence of calls, on all three levels. Induction on the calls. -/
theorem Aligned.exec (h : et.Aligned) (ops : List (BoundedLog.Op FiberEvent)) :
    ∃ et' : EventTracker, Trans.exec EventRing.step et.ring ops = some et'.ring ∧ et'.Aligned ∧
      et'.getEvents = ops.foldl (BoundedLog.retain et.capacity) et.getEvents := by
  induction ops generalizing et with
  | nil => exact ⟨et, rfl, h, rfl⟩
  | cons op ops ih =>
    obtain ⟨et', hexec, haligned, hevents⟩ := ih (h.step op)
    refine ⟨et', ?_, haligned, ?_⟩
    · rw [Trans.exec, ring_step]
      exact hexec
    · rw [hevents, capacity_step, h.getEvents_step, List.foldl_cons]

end EventTracker

/-- **The event tracker is a bounded log.** Whatever the capacity and the calls of `RecordEvent` and
`Clear`, no index leaves the array; the readers return the last events since `Clear`, oldest
first. -/
theorem event_tracker_bounded_log (capacity : Int) (ops : List (BoundedLog.Op FiberEvent)) :
    let size := if capacity ≤ 0 then 1000 else capacity.toNat
    let log := BoundedLog.since ops
    let kept := log.rtake (min log.length size)
    ∃ et : EventRing, (EventRing.new capacity).bind (Trans.exec EventRing.step · ops) = some et ∧
      et.getEvents = some kept ∧ et.getCount = kept.length ∧
      ∀ n, et.getRecentEvents n = some (kept.rtake (min (max n 0).toNat kept.length)) := by
  intro size log kept
  obtain ⟨et, hexec, haligned, hevents⟩ := (EventTracker.aligned_new capacity).exec ops
  have hkept : et.getEvents = kept := by
    have hrtake : log.rtake size = kept := by
      simp only [kept, List.rtake]
      congr 1
      omega
    rw [hevents, ← hrtake]
    exact BoundedLog.foldl_retain_nil size ops
  have hcount : et.count = kept.length := by
    rw [← hkept]
    simp [EventTracker.getEvents]
  refine ⟨et.ring, ?_, ?_, ?_, ?_⟩
  · rw [EventTracker.ring_new]
    exact hexec
  · rw [et.ring_getEvents, hkept]
  · rw [← hcount]
    rfl
  · intro n
    rw [et.ring_getRecentEvents, haligned.getRecentEvents_eq, hkept, hcount]

end GreenThreads
