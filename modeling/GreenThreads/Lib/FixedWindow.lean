import Mathlib.Algebra.Order.Group.Basic
import Mathlib.Data.List.Basic

/-!
# Counting events in fixed windows

A limiter that counts events in windows of one length: the first event after a window has run out
opens the next one, and a window lets at most `limit` events through. Windows are not aligned to
anything, so an interval of `k` periods can meet `k + 1` of them.

* `Windowed` — the events that were let through, each with the window it was counted in;
* `Windowed.countP_time_le` — how many of them an interval of `k` periods can hold;
* `Counter` — the limiter, which knows its current window only;
* `Counted` — what the counter has to do with the events, kept by both answers of `offer`.

Times are from any linearly ordered group.
-/

namespace FixedWindow

/-- An event that was let through, with the start of the window it was counted in. -/
structure Stamp (T : Type*) where
  time : T
  start : T

variable {T : Type*} [AddCommGroup T] [LinearOrder T]

/-- Each event lies in its window, windows do not overlap, and none holds more than `limit`. -/
structure Windowed (period : T) (limit : Nat) (log : List (Stamp T)) : Prop where
  within : ∀ e ∈ log, e.start ≤ e.time ∧ e.time < e.start + period
  apart : ∀ e ∈ log, ∀ e' ∈ log, e.start < e'.start → e.start + period ≤ e'.start
  limited : ∀ start, log.countP (fun e => e.start = start) ≤ limit

section

variable {α : Type*} {p q r : α → Bool}

theorem countP_le_add {xs : List α} (h : ∀ x ∈ xs, p x = true → q x = true ∨ r x = true) :
    xs.countP p ≤ xs.countP q + xs.countP r := by
  induction xs with
  | nil => exact Nat.le_refl 0
  | cons x xs ih =>
    have hrest := ih fun y hy => h y (List.mem_cons_of_mem x hy)
    have hx : (if p x = true then 1 else 0)
        ≤ (if q x = true then 1 else 0) + if r x = true then 1 else 0 := by
      split
      · next hp =>
        rcases h x List.mem_cons_self hp with hq | hr
        · rw [if_pos hq]
          exact Nat.le_add_right ..
        · rw [if_pos hr]
          exact Nat.le_add_left ..
      · exact Nat.zero_le _
    simp only [List.countP_cons]
    omega

end

namespace Windowed

variable [IsOrderedAddMonoid T] {period : T} {limit : Nat} {log : List (Stamp T)}

/-- Only one window can start in an interval of one period. -/
theorem countP_start_le_limit (h : Windowed period limit log) (c : T) :
    log.countP (fun e => c < e.start ∧ e.start ≤ c + period) ≤ limit := by
  rcases Nat.eq_zero_or_pos (log.countP fun e => c < e.start ∧ e.start ≤ c + period) with h0 | hpos
  · rw [h0]
    exact Nat.zero_le limit
  · obtain ⟨e₀, he₀, hin₀⟩ := List.countP_pos_iff.mp hpos
    obtain ⟨hlow₀, hhigh₀⟩ := of_decide_eq_true hin₀
    refine (List.countP_mono_left fun e he hin => ?_).trans (h.limited e₀.start)
    obtain ⟨hlow, hhigh⟩ := of_decide_eq_true hin
    -- a second start would lie a whole period away from the first
    rcases lt_trichotomy e.start e₀.start with hlt | heq | hgt
    · have hapart := (h.apart e he e₀ he₀ hlt).trans hhigh₀
      exact absurd hlow (not_lt_of_ge (le_of_add_le_add_right hapart))
    · exact decide_eq_true heq
    · have hapart := (h.apart e₀ he₀ e he hgt).trans hhigh
      exact absurd hlow₀ (not_lt_of_ge (le_of_add_le_add_right hapart))

/-- Induction on the number of periods: each one more holds the start of one more window. -/
theorem countP_start_le (h : Windowed period limit log) (c : T) (k : Nat) :
    log.countP (fun e => c < e.start ∧ e.start ≤ c + k • period) ≤ k * limit := by
  induction k with
  | zero =>
    have hnone : log.countP (fun e => c < e.start ∧ e.start ≤ c + 0 • period) = 0 := by
      refine List.countP_eq_zero.mpr fun e _ hin => ?_
      obtain ⟨hlow, hhigh⟩ := of_decide_eq_true hin
      rw [zero_nsmul, add_zero] at hhigh
      exact absurd hlow (not_lt_of_ge hhigh)
    rw [hnone]
    exact Nat.zero_le _
  | succ k ih =>
    have hlast := h.countP_start_le_limit (c + k • period)
    have hsplit : log.countP (fun e => c < e.start ∧ e.start ≤ c + (k + 1) • period)
        ≤ log.countP (fun e => c < e.start ∧ e.start ≤ c + k • period)
          + log.countP fun e => c + k • period < e.start ∧ e.start ≤ c + k • period + period := by
      refine countP_le_add fun e _ hin => ?_
      obtain ⟨hlow, hhigh⟩ := of_decide_eq_true hin
      rw [succ_nsmul, ← add_assoc] at hhigh
      rcases le_or_gt e.start (c + k • period) with hle | hgt
      · exact .inl (decide_eq_true ⟨hlow, hle⟩)
      · exact .inr (decide_eq_true ⟨hgt, hhigh⟩)
    rw [Nat.succ_mul]
    omega

/-- An interval of `k` periods holds events of at most `k + 1` windows: those that start in it and
the one that was open when it began. -/
theorem countP_time_le (h : Windowed period limit log) (a : T) (k : Nat) :
    log.countP (fun e => a ≤ e.time ∧ e.time < a + k • period) ≤ (k + 1) * limit := by
  refine (List.countP_mono_left fun e he hin => ?_).trans (h.countP_start_le (a - period) (k + 1))
  obtain ⟨hlow, hhigh⟩ := of_decide_eq_true hin
  obtain ⟨hstart, hend⟩ := h.within e he
  have hend' : a - period + (k + 1) • period = a + k • period := by
    rw [succ_nsmul', ← add_assoc, sub_add_cancel]
  refine decide_eq_true ⟨sub_lt_iff_lt_add.mpr (hlow.trans_lt hend), ?_⟩
  rw [hend']
  exact hstart.trans hhigh.le

end Windowed

/-! ## The limiter -/

/-- The current window and the number of events it has let through. -/
structure Counter (T : Type*) where
  start : T
  count : Nat

namespace Counter

/-- The window that is current at `now`. -/
def roll (period : T) (c : Counter T) (now : T) : Counter T :=
  if c.start + period ≤ now then ⟨now, 0⟩ else c

/-- One event for the current window. -/
def take (limit : Nat) (c : Counter T) : Bool × Counter T :=
  if limit ≤ c.count then (false, c) else (true, { c with count := c.count + 1 })

/-- One event at `now`. -/
def offer (period : T) (limit : Nat) (c : Counter T) (now : T) : Bool × Counter T :=
  (c.roll period now).take limit

end Counter

/-- The counter `c` stands for the events `log`, the last of which was at `now` or before. -/
structure Counted (period : T) (limit : Nat) (log : List (Stamp T)) (c : Counter T) (now : T) :
    Prop extends Windowed period limit log where
  current : log.countP (fun e => e.start = c.start) = c.count
  started : ∀ e ∈ log, e.start ≤ c.start
  elapsed : ∀ e ∈ log, e.start < c.start → e.start + period ≤ c.start
  opened : c.start ≤ now
  past : ∀ e ∈ log, e.time ≤ now

namespace Counted

variable {period now now' : T} {limit : Nat} {log : List (Stamp T)} {c c' : Counter T}

theorem empty {start : T} (h : start ≤ now) : Counted period limit [] ⟨start, 0⟩ now where
  within := by simp
  apart := by simp
  limited := by simp
  current := rfl
  started := by simp
  elapsed := by simp
  opened := h
  past := by simp

theorem later (h : Counted period limit log c now) (hnow : now ≤ now') :
    Counted period limit log c now' where
  toWindowed := h.toWindowed
  current := h.current
  started := h.started
  elapsed := h.elapsed
  opened := h.opened.trans hnow
  past e he := (h.past e he).trans hnow

/-- An event more in a current window that is not full. -/
theorem push (h : Counted period limit log c now) (hin : now < c.start + period)
    (hroom : c.count < limit) :
    Counted period limit (⟨now, c.start⟩ :: log) { c with count := c.count + 1 } now where
  within := List.forall_mem_cons.mpr ⟨⟨h.opened, hin⟩, h.within⟩
  apart := by
    intro e he e' he' hlt
    -- no window is later than the current one, and the earlier ones have run out
    rcases List.mem_cons.mp he with rfl | he <;> rcases List.mem_cons.mp he' with rfl | he'
    · exact absurd hlt (lt_irrefl _)
    · exact absurd hlt (not_lt_of_ge (h.started e' he'))
    · exact h.elapsed e he hlt
    · exact h.apart e he e' he' hlt
  limited := by
    intro start
    rw [List.countP_cons]
    split
    · next heq =>
      rw [← of_decide_eq_true heq, h.current]
      exact hroom
    · exact h.limited start
  current := by
    rw [List.countP_cons, if_pos (decide_eq_true rfl), h.current]
  started := List.forall_mem_cons.mpr ⟨le_rfl, h.started⟩
  elapsed := List.forall_mem_cons.mpr ⟨fun hlt => absurd hlt (lt_irrefl _), h.elapsed⟩
  opened := h.opened
  past := List.forall_mem_cons.mpr ⟨le_rfl, h.past⟩

variable [IsOrderedAddMonoid T]

/-- A new window starts a whole period after every earlier one. -/
theorem roll (h : Counted period limit log c now) (hperiod : 0 < period) :
    Counted period limit log (c.roll period now) now
      ∧ now < (c.roll period now).start + period := by
  unfold Counter.roll
  split
  · next hout =>
    have hbefore : ∀ e ∈ log, e.start + period ≤ now := fun e he =>
      (add_le_add_left (h.started e he) period).trans hout
    have hlt : ∀ e ∈ log, e.start < now := fun e he =>
      (lt_add_of_pos_right e.start hperiod).trans_le (hbefore e he)
    refine ⟨?_, lt_add_of_pos_right now hperiod⟩
    exact {
      toWindowed := h.toWindowed
      current := List.countP_eq_zero.mpr fun e he heq =>
        (hlt e he).ne (of_decide_eq_true heq)
      started := fun e he => (hlt e he).le
      elapsed := fun e he _ => hbefore e he
      opened := le_rfl
      past := h.past }
  · next hin => exact ⟨h, lt_of_not_ge hin⟩

/-- The events of a current window all lie in the last period. -/
theorem countP_recent_of_full (h : Counted period limit log c now) (hin : now < c.start + period)
    (hfull : limit ≤ c.count) :
    limit ≤ log.countP fun e => now < e.time + period ∧ e.time ≤ now := by
  rw [← h.current] at hfull
  refine hfull.trans (List.countP_mono_left fun e he heq => decide_eq_true ⟨?_, h.past e he⟩)
  have hstart : c.start ≤ e.time := (of_decide_eq_true heq) ▸ (h.within e he).1
  exact hin.trans_le (add_le_add_left hstart period)

theorem offer_true (h : Counted period limit log c now) (hperiod : 0 < period) (hnow : now ≤ now')
    (hoffer : c.offer period limit now' = (true, c')) :
    Counted period limit (⟨now', c'.start⟩ :: log) c' now' := by
  obtain ⟨hroll, hin⟩ := (h.later hnow).roll hperiod
  unfold Counter.offer Counter.take at hoffer
  split at hoffer
  · cases hoffer
  · next hroom =>
    cases hoffer
    exact hroll.push hin (Nat.lt_of_not_le hroom)

/-- An event is refused when the last period has used up the limit. -/
theorem offer_false (h : Counted period limit log c now) (hperiod : 0 < period) (hnow : now ≤ now')
    (hoffer : c.offer period limit now' = (false, c')) :
    Counted period limit log c' now'
      ∧ limit ≤ log.countP fun e => now' < e.time + period ∧ e.time ≤ now' := by
  obtain ⟨hroll, hin⟩ := (h.later hnow).roll hperiod
  unfold Counter.offer Counter.take at hoffer
  split at hoffer
  · next hfull =>
    cases hoffer
    exact ⟨hroll, hroll.countP_recent_of_full hin hfull⟩
  · cases hoffer

end Counted

end FixedWindow
