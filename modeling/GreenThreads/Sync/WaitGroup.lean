import GreenThreads.Sync.Calls
import GreenThreads.Lib.Trans
import GreenThreads.Lib.GoInt

/-!
# GreenThreads — `FiberWaitGroup` (`internal/sync/waitgroup.go`)

The critical sections of `FiberWaitGroup`, then the system of any number of calls on one of
them. The counter is a machine `int`, and so is every intermediate result of the guards of
`Add`, on a platform with 32 or with 64 bits.
-/

namespace GreenThreads.Sync

variable {p : IntSize}

/-- `var maxInt = int(^uint(0) >> 1)`. -/
def maxInt : GoInt p := .wrap p ((2 ^ p.bits - 1) / 2)

@[simp] theorem maxInt_val : (maxInt : GoInt p).val = p.maxVal := by
  cases p <;> decide

/-- `type FiberWaitGroup struct`. -/
structure FiberWaitGroup (p : IntSize) where
  counter : GoInt p
  waitQueue : List Waiter
  deriving DecidableEq, Repr

namespace FiberWaitGroup

/-- `NewFiberWaitGroup`. -/
def new : FiberWaitGroup p := ⟨0, []⟩

/-- `Add`: an error, or the wait group after it and the waiters it wakes. -/
def add (fwg : FiberWaitGroup p) (delta : GoInt p) :
    Except String (FiberWaitGroup p × List Waiter) :=
  if 0 < delta ∧ fwg.waitQueue.length > 0 then
    .error "cannot add to waitgroup while fibers are waiting"
  else if 0 < delta ∧ maxInt - delta < fwg.counter then
    .error "waitgroup counter overflow"
  else if delta < 0 ∧ delta < -fwg.counter then
    .error "negative waitgroup counter"
  else if fwg.counter + delta = 0 then
    .ok (⟨fwg.counter + delta, []⟩, fwg.waitQueue)
  else
    .ok ({ fwg with counter := fwg.counter + delta }, [])

/-- `Done`. -/
def done (fwg : FiberWaitGroup p) : Except String (FiberWaitGroup p × List Waiter) :=
  fwg.add (-1)

/-- The section `Wait` and `WaitCtx` open with: return at once (`true`), or join the back of
`waitQueue` with the waiter `w`. -/
def waitSection (fwg : FiberWaitGroup p) (w : Waiter) : FiberWaitGroup p × Bool :=
  if fwg.counter = 0 then (fwg, true)
  else ({ fwg with waitQueue := fwg.waitQueue ++ [w] }, false)

/-- `removeWaiterLocked`. -/
def removeWaiterLocked (fwg : FiberWaitGroup p) (c : Nat) : FiberWaitGroup p :=
  { fwg with waitQueue := removeWaiter Waiter.call fwg.waitQueue c }

/-! ### The sections, case by case -/

theorem waitSection_zero {fwg : FiberWaitGroup p} (w : Waiter) (h : fwg.counter = 0) :
    fwg.waitSection w = (fwg, true) :=
  if_pos h

theorem waitSection_busy {fwg : FiberWaitGroup p} (w : Waiter) (h : fwg.counter ≠ 0) :
    fwg.waitSection w = ({ fwg with waitQueue := fwg.waitQueue ++ [w] }, false) :=
  if_neg h

/-- What `Add` checks, in unbounded integers. -/
def Fits (fwg : FiberWaitGroup p) (delta : GoInt p) : Prop :=
  (delta.val ≤ 0 ∨ fwg.waitQueue = []) ∧
    0 ≤ fwg.counter.val + delta.val ∧ fwg.counter.val + delta.val ≤ p.maxVal

/-- From a counter that is not negative the second guard is exact: `maxInt - delta` does not
wrap for a positive `delta`. -/
theorem overflow_guard_iff {fwg : FiberWaitGroup p} {delta : GoInt p} (hpos : 0 < delta.val) :
    maxInt - delta < fwg.counter ↔ p.maxVal < fwg.counter.val + delta.val := by
  have hmax := delta.le_max
  have hmin := p.minVal_eq
  have hone := p.one_le_maxVal
  rw [GoInt.lt_iff, GoInt.sub_val (by rw [maxInt_val]; omega) (by rw [maxInt_val]; omega),
    maxInt_val]
  omega

/-- So is the third, because the counter is not the least `int`; this is where a `delta` of the
least `int` is turned away. -/
theorem negative_guard_iff {fwg : FiberWaitGroup p} {delta : GoInt p}
    (h0 : 0 ≤ fwg.counter.val) :
    delta < -fwg.counter ↔ fwg.counter.val + delta.val < 0 := by
  have hone := p.one_le_maxVal
  rw [GoInt.lt_iff, GoInt.neg_val (by omega)]
  omega

/-- The sum that `Add` accepts does not wrap. -/
theorem counter_add_val {fwg : FiberWaitGroup p} {delta : GoInt p} (h : fwg.Fits delta) :
    (fwg.counter + delta).val = fwg.counter.val + delta.val := by
  have hmin := p.minVal_eq
  have hone := p.one_le_maxVal
  obtain ⟨-, hlow, hhigh⟩ := h
  exact GoInt.add_val (by omega) hhigh

/-- `Add` accepts what fits. -/
theorem add_of_fits {fwg : FiberWaitGroup p} {delta : GoInt p} (h0 : 0 ≤ fwg.counter.val)
    (h : fwg.Fits delta) :
    fwg.add delta = if fwg.counter.val + delta.val = 0
      then .ok (⟨fwg.counter + delta, []⟩, fwg.waitQueue)
      else .ok ({ fwg with counter := fwg.counter + delta }, []) := by
  have hsum := counter_add_val h
  obtain ⟨hq, hlow, hhigh⟩ := h
  have hpos : (0 : GoInt p) < delta ↔ 0 < delta.val := by rw [GoInt.lt_iff, GoInt.zero_val]
  have h1 : ¬ (0 < delta ∧ fwg.waitQueue.length > 0) := by
    rintro ⟨hd, hlen⟩
    rw [hpos] at hd
    rcases hq with hq | hq
    · omega
    · simp [hq] at hlen
  have h2 : ¬ (0 < delta ∧ maxInt - delta < fwg.counter) := by
    rintro ⟨hd, hover⟩
    rw [overflow_guard_iff (hpos.mp hd)] at hover
    omega
  have h3 : ¬ (delta < 0 ∧ delta < -fwg.counter) := by
    rintro ⟨-, hneg⟩
    rw [negative_guard_iff h0] at hneg
    omega
  have hzero : fwg.counter + delta = 0 ↔ fwg.counter.val + delta.val = 0 := by
    rw [GoInt.eq_zero_iff, hsum]
  unfold add
  rw [if_neg h1, if_neg h2, if_neg h3]
  by_cases hz : fwg.counter.val + delta.val = 0
  · rw [if_pos hz, if_pos (hzero.mpr hz)]
  · rw [if_neg hz, if_neg (mt hzero.mp hz)]

/-- And it rejects the rest. -/
theorem add_of_not_fits {fwg : FiberWaitGroup p} {delta : GoInt p} (h0 : 0 ≤ fwg.counter.val)
    (h : ¬ fwg.Fits delta) : ∃ msg, fwg.add delta = .error msg := by
  have hle := fwg.counter.le_max
  unfold add
  by_cases h1 : 0 < delta ∧ fwg.waitQueue.length > 0
  · exact ⟨_, if_pos h1⟩
  rw [if_neg h1]
  by_cases h2 : 0 < delta ∧ maxInt - delta < fwg.counter
  · exact ⟨_, if_pos h2⟩
  rw [if_neg h2]
  by_cases h3 : delta < 0 ∧ delta < -fwg.counter
  · exact ⟨_, if_pos h3⟩
  -- none of the three guards fired, so the sum fits
  refine absurd ?_ h
  have hneg : ¬ (delta.val < 0 ∧ fwg.counter.val + delta.val < 0) := by
    rwa [negative_guard_iff h0, GoInt.lt_iff, GoInt.zero_val] at h3
  by_cases hd : 0 < delta.val
  · have hd' : (0 : GoInt p) < delta := by rwa [GoInt.lt_iff, GoInt.zero_val]
    have hover : ¬ p.maxVal < fwg.counter.val + delta.val :=
      fun hover => h2 ⟨hd', (overflow_guard_iff hd).mpr hover⟩
    have hq : fwg.waitQueue = [] := by
      by_contra hne
      exact h1 ⟨hd', List.length_pos_iff.mpr hne⟩
    exact ⟨.inr hq, by omega, by omega⟩
  · exact ⟨.inl (by omega), by omega, by omega⟩

end FiberWaitGroup

namespace WaitGroup

/-! ## Calls on one wait group -/

/-- The blocking operations, with the fiber they are called for (`none`: nil). -/
inductive Op where
  | wait (f : Option FiberRef)
  | waitCtx (f : Option FiberRef)
  deriving DecidableEq, Repr

/-- How a blocking call ends; `ok` is `Wait` returning and `WaitCtx` returning nil. -/
inductive Result where
  | ok
  | ctxErr
  | err (msg : String)
  | panic (msg : String)
  deriving DecidableEq, Repr

/-- One wait group and the history of its use: the deltas that `Add` and `Done` accepted, and
the calls whose `ready` channel was closed, once for each `close(ready)`. -/
structure Sys (p : IntSize) where
  fwg : FiberWaitGroup p
  calls : Calls Op Result
  accepted : List (GoInt p)
  closes : List Nat
  deriving DecidableEq, Repr

/-- A new wait group nobody has called yet. -/
def init : Sys p := ⟨.new, [], [], []⟩

/-- A step: a waiting call's first section, an `Add` or a `Done`, or a parked call leaving its
wait. -/
inductive Label (p : IntSize) where
  | call (op : Op)
  | add (delta : GoInt p)
  | done
  | resume (c : Nat)
  | cancel (c : Nat)
  deriving DecidableEq, Repr

/-- Record a waiting call that returns from its first section. -/
def Sys.ret (s : Sys p) (op : Op) (r : Result) : Sys p :=
  { s with calls := s.calls ++ [⟨op, .returned r⟩] }

/-- The first section of `Wait` and `WaitCtx` for a non-nil fiber. -/
def Sys.waitFor (s : Sys p) (op : Op) (f : FiberRef) : Sys p :=
  match s.fwg.waitSection ⟨s.calls.length, f⟩ with
  | (_, true) => s.ret op .ok
  | (fwg, false) => { s with fwg := fwg, calls := s.calls ++ [⟨op, .parked⟩] }

/-- The first section of a waiting call. -/
def Sys.enter (s : Sys p) : Op → Sys p
  | .wait none => s.ret (.wait none) (.panic "fiber waitgroup wait requires a non-nil fiber")
  | .wait (some f) => s.waitFor (.wait (some f)) f
  | .waitCtx none => s.ret (.waitCtx none) (.err "wait requires a current fiber")
  | .waitCtx (some f) => s.waitFor (.waitCtx (some f)) f

/-- Record an `Add` or a `Done` of `delta`. An error leaves everything as it was. -/
def Sys.change (s : Sys p) (delta : GoInt p) :
    Except String (FiberWaitGroup p × List Waiter) → Sys p
  | .ok (fwg, woken) =>
    { s with
      fwg := fwg
      calls := s.calls.wakeAll (woken.map Waiter.call) .ok
      accepted := s.accepted ++ [delta]
      closes := s.closes ++ woken.map Waiter.call }
  | .error _ => s

/-- `<-waiter.ready` in `Wait`, and the `ready` arm of the `select` in `WaitCtx`. -/
def Sys.resume (s : Sys p) (c : Nat) : Option (Sys p) :=
  match s.calls.phaseOf c with
  | some (.woken r) => some { s with calls := s.calls.setPhase c (.returned r) }
  | _ => none

/-- The `ctx.Done()` arm of the `select` in `WaitCtx`: re-check `ready` under the lock, and
leave the queue only if it is still open. -/
def Sys.cancel (s : Sys p) (c : Nat) : Option (Sys p) :=
  match s.calls.opOf c, s.calls.phaseOf c with
  | some (.waitCtx _), some (.woken r) =>
    some { s with calls := s.calls.setPhase c (.returned r) }
  | some (.waitCtx _), some .parked =>
    some { s with
      fwg := s.fwg.removeWaiterLocked c
      calls := s.calls.setPhase c (.returned .ctxErr) }
  | _, _ => none

/-- One critical section. -/
def step (s : Sys p) : Label p → Option (Sys p)
  | .call op => some (s.enter op)
  | .add delta => some (s.change delta (s.fwg.add delta))
  | .done => some (s.change (-1) s.fwg.done)
  | .resume c => s.resume c
  | .cancel c => s.cancel c

/-- The states some run of calls and cancellations ends in. -/
def Reachable : Sys p → Prop := Trans.Reach step Trans.anyStep init

end WaitGroup

end GreenThreads.Sync
