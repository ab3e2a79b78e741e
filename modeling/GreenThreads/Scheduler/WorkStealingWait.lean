import GreenThreads.Scheduler.WorkStealingRun

/-!
# GreenThreads — how long a fiber waits in a work-stealing queue

`Next` draws the workers in turn with a counter of 64 bits and takes the first fiber of the worker
it has drawn; `steal` takes the last fiber of a victim, and `Schedule` appends behind the last. So
an entry of a queue only moves forward, whatever calls interleave, and it moves each time a call
that has drawn its worker looks at the queue.

A call may be held up between the draw and the look. The calls that are on their way to a queue
are therefore counted too (`Sys.owed`): what an entry still has to wait for is at most what it had
to wait for at the start, less one for each `Next` that was called, plus what those calls owe.
-/

namespace GreenThreads.Scheduler.WorkStealing

open WorkStealingScheduler

variable {n : Nat}

/-! ## The turns of a worker -/

/-- How many calls draw other workers before one draws `w`, with the counter at `c`. Where the
counter wraps the turns start again with worker 0, out of order unless `n` divides `2 ^ 64`. -/
def turnsUntil (w : Fin n) (c : UInt64) : Nat :=
  let pos := c.toNat % n
  let ahead := if pos ≤ w then w - pos else w + n - pos
  if c.toNat + ahead < 2 ^ 64 then ahead else 2 ^ 64 - c.toNat + w

/-- The most turns between two draws of one worker: a round, or nearly two where the counter
wraps. -/
def round (n : Nat) : Nat := 2 * n - 1

theorem turnsUntil_lt_round (w : Fin n) (c : UInt64) : turnsUntil w c + 1 ≤ round n := by
  have hw := w.isLt
  have hpos := Nat.mod_lt c.toNat (Nat.zero_lt_of_lt hw)
  simp only [turnsUntil, round]
  split <;> split <;> omega

theorem succ_mod_cases (c : Nat) {n : Nat} (hn : 0 < n) :
    (c + 1) % n = c % n + 1 ∨ c % n + 1 = n ∧ (c + 1) % n = 0 := by
  have hlt := Nat.mod_lt c hn
  rw [← Nat.mod_add_mod]
  by_cases heq : c % n + 1 = n
  · exact .inr ⟨heq, by rw [heq, Nat.mod_self]⟩
  · exact .inl (Nat.mod_eq_of_lt (by omega))

/-- A draw of another worker brings the turn of `w` nearer. -/
theorem turnsUntil_succ (hn : n ≤ 2 ^ 64) {w : Fin n} {c : UInt64} (hne : c.toNat % n ≠ w) :
    turnsUntil w (c + 1) + 1 ≤ turnsUntil w c := by
  have hw := w.isLt
  have hpos := Nat.mod_lt c.toNat (Nat.zero_lt_of_lt hw)
  have hc := c.toNat_lt
  have hadd : (c + 1).toNat = (c.toNat + 1) % 2 ^ 64 := UInt64.toNat_add c 1
  simp only [turnsUntil]
  by_cases hwrap : c.toNat + 1 = 2 ^ 64
  · rw [hadd, hwrap, Nat.mod_self, Nat.zero_mod, if_pos (Nat.zero_le _)]
    split <;> split <;> split <;> omega
  · have hsucc := succ_mod_cases c.toNat (Nat.zero_lt_of_lt hw)
    rw [hadd, Nat.mod_eq_of_lt (by omega : c.toNat + 1 < 2 ^ 64)]
    split <;> split <;> split <;> split <;> omega

theorem drawn_val [NeZero n] (s : WorkStealingScheduler n) :
    (s.drawn : Nat) = s.nextWorker.toNat % n := by
  have hcancel : s.nextWorker + 1 - 1 = s.nextWorker := UInt64.add_sub_cancel ..
  rw [drawn, hcancel, Fin.val_ofNat]

/-! ## An entry moves forward -/

/-- The queue has an entry of the fiber with at most `p` entries before it. -/
def Within (f : FiberID) (p : Nat) (q : List FiberID) : Prop :=
  ∃ front back, q = front ++ f :: back ∧ front.length ≤ p

namespace Within

variable {f : FiberID} {p : Nat} {q : List FiberID}

theorem append (h : Within f p q) (g : FiberID) : Within f p (q ++ [g]) := by
  obtain ⟨front, back, rfl, hle⟩ := h
  exact ⟨front, back ++ [g], by simp, hle⟩

theorem filter (h : Within f p q) {keep : FiberID → Bool} (hf : keep f = true) :
    Within f p (q.filter keep) := by
  obtain ⟨front, back, rfl, hle⟩ := h
  exact ⟨front.filter keep, back.filter keep, by simp [hf],
    (List.length_filter_le ..).trans hle⟩

theorem erase (h : Within f p q) {g : FiberID} (hg : g ≠ f) : Within f p (q.erase g) := by
  obtain ⟨front, back, rfl, hle⟩ := h
  by_cases hmem : g ∈ front
  · refine ⟨front.erase g, back, by rw [List.erase_append_left _ hmem], ?_⟩
    exact (List.length_erase_le ..).trans hle
  · refine ⟨front, back.erase g, ?_, hle⟩
    rw [List.erase_append_right _ hmem, List.erase_cons_tail (by simpa using hg.symm)]

/-- Taking the first entry takes this one, or one before it. -/
theorem tail {g : FiberID} (h : Within f p (g :: q)) :
    g = f ∨ ∃ p', p = p' + 1 ∧ Within f p' q := by
  obtain ⟨front, back, heq, hle⟩ := h
  cases front with
  | nil => exact .inl (List.cons.inj heq).1
  | cons x front =>
    refine .inr ⟨p - 1, ?_, front, back, (List.cons.inj heq).2, ?_⟩ <;>
    · rw [List.length_cons] at hle
      omega

/-- Taking the last entry takes this one, or one behind it. -/
theorem dropLast {g : FiberID} (h : Within f p (q ++ [g])) : g = f ∨ Within f p q := by
  obtain ⟨front, back, heq, hle⟩ := h
  rcases List.eq_nil_or_concat back with rfl | ⟨back, x, rfl⟩
  · have hlast := (List.append_inj' heq rfl).2
    exact .inl (List.cons.inj hlast).1
  · refine .inr ⟨front, back, ?_, hle⟩
    have hsplit : q ++ [g] = (front ++ f :: back) ++ [x] := by simpa using heq
    exact (List.append_inj' hsplit rfl).1

end Within

namespace Pc

/-- The call is none that takes the fiber out of a queue other than to return it. -/
def spares (f : FiberID) : Pc n → Bool
  | .remove g _ | .markCompleted g | .sweeping g _ => g != f
  | _ => true

/-- What a call will still contribute to the wait at worker `w`: a draw, or a look at `w`, which
is worth a round. -/
def owed (w : Fin n) : Pc n → Nat
  | .next | .drawing => 1
  | .popping i => if i = w then round n else 0
  | _ => 0

end Pc

/-! ## One section -/

section Section

variable {s : WorkStealingScheduler n} {f : FiberID} {p : Nat} {w : Fin n}

theorem within_setWorker {i : Fin n} {w' : Worker} (hq : Within f p (s.workers w).localQueue)
    (hi : i = w → Within f p w'.localQueue) :
    Within f p ((s.setWorker i w').workers w).localQueue := by
  by_cases h : i = w
  · subst h
    simpa [setWorker] using hi rfl
  · have hother : (s.setWorker i w').workers w = s.workers w :=
      Function.update_of_ne (Ne.symm h) ..
    rwa [hother]

/-- A look at the queue from the front. -/
theorem popFirst_within (hf : (s.fibers f).isFinished = false)
    (hq : Within f p (s.workers w).localQueue) :
    ((s.workers w).popFirst s.fibers).2 = some f
      ∨ ∃ p', p = p' + 1 ∧ Within f p' ((s.workers w).popFirst s.fibers).1.localQueue := by
  have hlive : Within f p (filterFinishedInPlace s.fibers (s.workers w).localQueue) :=
    hq.filter (by simp [hf])
  unfold Worker.popFirst
  cases heq : filterFinishedInPlace s.fibers (s.workers w).localQueue with
  | nil =>
    obtain ⟨front, back, hnil, -⟩ := hlive
    simp [heq] at hnil
  | cons g q =>
    rw [heq] at hlive
    rcases hlive.tail with rfl | hmoved
    · exact .inl rfl
    · exact .inr hmoved

/-- A look from the back. -/
theorem popLast_within (hf : (s.fibers f).isFinished = false)
    (hq : Within f p (s.workers w).localQueue) :
    ((s.workers w).popLast s.fibers).2 = some f
      ∨ Within f p ((s.workers w).popLast s.fibers).1.localQueue := by
  have hlive : Within f p (filterFinishedInPlace s.fibers (s.workers w).localQueue) :=
    hq.filter (by simp [hf])
  unfold Worker.popLast
  cases heq : (filterFinishedInPlace s.fibers (s.workers w).localQueue).getLast? with
  | none =>
    dsimp only
    rw [heq]
    exact .inr hlive
  | some g =>
    dsimp only
    rw [heq]
    rw [← List.dropLast_append_getLast? g heq] at hlive
    rcases hlive.dropLast with rfl | hkept
    · exact .inl rfl
    · exact .inr hkept

namespace Pc

/-- What one section does to an entry of `f` in the queue of `w`. -/
structure Advances (f : FiberID) (w : Fin n) (s : WorkStealingScheduler n) (pc : Pc n)
    (e : Effect n) : Prop where
  spares : e.pc.spares f = true
  stopped : e.sched.base.stopped = s.base.stopped
  /-- The call gets the fiber, or what the entry still waits for, less what the call owes, does
  not grow. -/
  waits : ∀ p, Within f p (s.workers w).localQueue →
    pc.result = none ∧ e.pc.result = some f
      ∨ ∃ p', Within f p' (e.sched.workers w).localQueue
        ∧ p' * round n + turnsUntil w e.sched.nextWorker + pc.owed w
          ≤ p * round n + turnsUntil w s.nextWorker + e.pc.owed w

/-- A section that draws no worker and takes no fiber to return. -/
theorem Advances.still {pc : Pc n} {e : Effect n} (hspares : e.pc.spares f = true)
    (hstopped : e.sched.base.stopped = s.base.stopped)
    (hnext : e.sched.nextWorker = s.nextWorker) (howed : pc.owed w ≤ e.pc.owed w)
    (hq : ∀ p, Within f p (s.workers w).localQueue → Within f p (e.sched.workers w).localQueue) :
    Advances f w s pc e where
  spares := hspares
  stopped := hstopped
  waits p hp := .inr ⟨p, hq p hp, by rw [hnext]; omega⟩

/-- A call that has the fiber keeps it. -/
theorem act_keeps [NeZero n] {c : Choice n} {pc : Pc n} {e : Effect n} (h : pc.act s c = some e)
    (hf : pc.result = some f) : e.pc.result = some f := by
  cases pc with
  | switching g | stolen i g | crediting g =>
    cases h
    exact hf
  | done r => cases h
  | _ => cases hf

theorem drawing_advances [NeZero n] (hn : n ≤ 2 ^ 64) (f : FiberID) (w : Fin n)
    (s : WorkStealingScheduler n) : Advances f w s .drawing
      { sched := { s with nextWorker := s.nextWorker + 1 }, pc := .popping s.drawn } where
  spares := rfl
  stopped := rfl
  waits p hp := by
    refine .inr ⟨p, hp, ?_⟩
    simp only [owed]
    split
    · have := turnsUntil_lt_round w (s.nextWorker + 1)
      omega
    · next hne =>
      have hother : s.nextWorker.toNat % n ≠ w := by
        rw [← drawn_val]
        exact fun heq => hne (Fin.ext heq)
      have := turnsUntil_succ hn hother
      omega

theorem popping_advances (hf : (s.fibers f).isFinished = false) (w i : Fin n) :
    Advances f w s (.popping i)
      { sched := s.setWorker i ((s.workers i).popFirst s.fibers).1
        pc := ((s.workers i).popFirst s.fibers).2.elim (.missing i) .switching
        dropped := finishedOf s i } where
  spares := by cases ((s.workers i).popFirst s.fibers).2 <;> rfl
  stopped := rfl
  waits p hp := by
    by_cases hi : i = w
    · subst hi
      rcases popFirst_within hf hp with hgot | ⟨p', rfl, hmoved⟩
      · exact .inl ⟨rfl, by rw [hgot]; rfl⟩
      · refine .inr ⟨p', by simpa [setWorker] using hmoved, ?_⟩
        -- the look is worth a round, and so is the place won
        simp only [owed, if_true, Nat.succ_mul, setWorker]
        omega
    · refine .inr ⟨p, within_setWorker hp (fun h => absurd h hi), ?_⟩
      simp only [owed, if_neg hi, setWorker]
      omega

theorem stealing_advances (hf : (s.fibers f).isFinished = false) (w i v : Fin n)
    (victims : List (Fin n)) :
    Advances f w s (.stealing i (v :: victims))
      { sched := s.setWorker v ((s.workers v).popLast s.fibers).1
        pc := ((s.workers v).popLast s.fibers).2.elim (.stealing i victims) (.stolen i)
        dropped := finishedOf s v } where
  spares := by cases ((s.workers v).popLast s.fibers).2 <;> rfl
  stopped := rfl
  waits p hp := by
    by_cases hv : v = w
    · subst hv
      rcases popLast_within hf hp with hgot | hkept
      · exact .inl ⟨rfl, by rw [hgot]; rfl⟩
      · exact .inr ⟨p, within_setWorker hp (fun _ => hkept), Nat.le_add_right ..⟩
    · exact .inr ⟨p, within_setWorker hp (fun h => absurd h hv), Nat.le_add_right ..⟩

theorem act_advances [NeZero n] {c : Choice n} {pc : Pc n} {e : Effect n} (hn : n ≤ 2 ^ 64)
    (h : pc.act s c = some e) (hrun : s.base.stopped = false)
    (hf : (s.fibers f).isFinished = false) (hspare : pc.spares f = true) :
    Advances f w s pc e := by
  cases pc with
  | schedule g =>
    simp only [act] at h
    split at h <;> cases h <;> exact .still rfl rfl rfl (Nat.le_refl _) (fun _ => id)
  | next =>
    rw [act, if_neg (by simp [hrun])] at h
    cases h
    exact .still rfl rfl rfl (Nat.le_refl _) (fun _ => id)
  | sizing g rest best =>
    cases rest with
    | cons i rest =>
      cases h
      exact .still rfl rfl rfl (Nat.le_refl _) (fun _ => id)
    | nil =>
      cases h
      exact .still rfl rfl rfl (Nat.le_refl _)
        (fun p hp => within_setWorker hp (fun heq => by
          rw [heq]
          exact hp.append g))
  | counting | missing i | switching g | crediting g =>
    cases h
    exact .still rfl rfl rfl (Nat.le_refl _) (fun _ => id)
  | drawing =>
    cases h
    exact drawing_advances hn f w s
  | popping i =>
    cases h
    exact popping_advances hf w i
  | shuffling i =>
    simp only [act] at h
    split at h
    · split at h
      · cases h
        exact .still rfl rfl rfl (Nat.le_refl _) (fun _ => id)
      · cases h
    · cases h
  | stealing i victims =>
    cases victims with
    | nil =>
      cases h
      exact .still rfl rfl rfl (Nat.le_refl _) (fun _ => id)
    | cons v victims =>
      cases h
      exact stealing_advances hf w i v victims
  | stolen i g =>
    cases h
    exact .still rfl rfl rfl (Nat.le_refl _)
      (fun p hp => within_setWorker hp (fun heq => by
        rw [heq]
        exact hp))
  | remove g rest =>
    have hg : g ≠ f := by simpa [spares] using hspare
    cases rest with
    | nil =>
      cases h
      exact .still rfl rfl rfl (Nat.le_refl _) (fun _ => id)
    | cons i rest =>
      simp only [act] at h
      split at h
      · next w' hw' =>
        cases h
        refine .still rfl rfl rfl (Nat.le_refl _)
          (fun p hp => within_setWorker hp (fun heq => ?_))
        unfold Worker.remove at hw'
        split at hw'
        · cases hw'
          rw [heq]
          exact hp.erase hg
        · cases hw'
      · cases h
        exact .still hspare rfl rfl (Nat.le_refl _) (fun _ => id)
  | markCompleted g =>
    simp only [act] at h
    split at h
    · cases h
      exact .still rfl rfl rfl (Nat.le_refl _) (fun _ => id)
    · split at h
      · split at h
        · cases h
          exact .still hspare rfl rfl (Nat.le_refl _) (fun _ => id)
        · cases h
      · cases h
  | sweeping g rest =>
    have hg : g ≠ f := by simpa [spares] using hspare
    cases rest with
    | nil =>
      cases h
      exact .still rfl rfl rfl (Nat.le_refl _) (fun _ => id)
    | cons i rest =>
      cases h
      exact .still hspare rfl rfl (Nat.le_refl _)
        (fun p hp => within_setWorker hp (fun heq => by
          rw [heq]
          exact hp.filter (by simpa using hg.symm)))
  | done r => cases h

end Pc

end Section

/-! ## A run -/

namespace Label

/-- The step is no call that takes the fiber out, does not end it, and does not stop the
scheduler. -/
def spares (f : FiberID) : Label n → Bool
  | .call (.remove g) | .call (.markCompleted g) | .finish g => g != f
  | .stop => false
  | _ => true

def callsNext : Label n → Bool
  | .call .next => true
  | _ => false

end Label

namespace Sys

/-- What all calls owe. -/
def owed (w : Fin n) (s : Sys n) : Nat := (s.calls.map (Pc.owed w)).sum

/-- How many calls of `Next` have returned the fiber or are about to. -/
def handed (f : FiberID) (s : Sys n) : Nat := (s.calls.filterMap Pc.result).count f

/-- An entry of the fiber waits in the queue of worker `w`, and `called` calls of `Next` have been
made of the `bound` that suffice. -/
structure Waits (f : FiberID) (w : Fin n) (bound called : Nat) (s : Sys n) : Prop where
  running : s.sched.base.stopped = false
  unfinished : (s.sched.fibers f).isFinished = false
  spared : ∀ pc ∈ s.calls, pc.spares f = true
  near : ∃ p, Within f p (s.sched.workers w).localQueue
    ∧ called + p * round n + turnsUntil w s.sched.nextWorker + 1 ≤ bound + s.owed w

theorem sum_map_set {α : Type*} (g : α → Nat) {l : List α} {k : Nat} {a b : α}
    (h : l[k]? = some a) : ((l.set k b).map g).sum + g a = (l.map g).sum + g b := by
  induction l generalizing k with
  | nil => simp at h
  | cons x l ih =>
    cases k with
    | zero =>
      have hx : x = a := by simpa using h
      subst hx
      simp only [List.set_cons_zero, List.map_cons, List.sum_cons]
      omega
    | succ k =>
      have ih' := ih (k := k) (by simpa using h)
      simp only [List.set_cons_succ, List.map_cons, List.sum_cons]
      omega

/-- Exchanging a call's place exchanges what it contributes to `handed`. -/
theorem handed_set {s : Sys n} {k : Nat} {pc : Pc n} {e : Effect n} (f : FiberID)
    (hk : s.calls[k]? = some pc) :
    (s.apply k e).handed f + pc.result.toList.count f
      = s.handed f + e.pc.result.toList.count f := by
  have hset := congrArg (Multiset.count f) (filterMap_set Pc.result (b := e.pc) hk)
  simp only [Multiset.count_add, Multiset.coe_count] at hset
  exact hset

variable {s s' : Sys n} {f : FiberID} {w : Fin n} {bound called : Nat}

/-- A call that is made owes what it counts for. -/
theorem Waits.call (hw : Waits f w bound called s) {op : Op}
    (hl : (Label.call (n := n) op).spares f = true) :
    Waits f w bound (called + Pc.owed w (op.entry (n := n)))
      { s with calls := s.calls ++ [op.entry] } where
  running := hw.running
  unfinished := hw.unfinished
  spared pc hpc := by
    rcases List.mem_append.mp hpc with hmem | hnew
    · exact hw.spared pc hmem
    · rw [List.mem_singleton.mp hnew]
      cases op <;> exact hl
  near := by
    obtain ⟨p, hp, hle⟩ := hw.near
    refine ⟨p, hp, ?_⟩
    simp only [owed, List.map_append, List.map_cons, List.map_nil, List.sum_append,
      List.sum_singleton] at hle ⊢
    omega

variable [NeZero n]

theorem handed_step {l : Label n} (h : s.step l = some s') : s.handed f ≤ s'.handed f := by
  cases l with
  | call op =>
    cases h
    simp [handed]
  | act k c =>
    obtain ⟨pc, hk, hact⟩ := Option.bind_eq_some_iff.mp h
    obtain ⟨e, he, rfl⟩ := Option.map_eq_some_iff.mp hact
    have hset := handed_set (e := e) f hk
    have hle : pc.result.toList.count f ≤ e.pc.result.toList.count f := by
      by_cases hf : pc.result = some f
      · rw [hf, Pc.act_keeps he hf]
      · rw [List.count_eq_zero_of_not_mem (by simpa using hf)]
        exact Nat.zero_le _
    omega
  | finish g | start | stop =>
    cases h
    exact Nat.le_refl _

theorem handed_exec {ls : List (Label n)} (h : Trans.exec step s ls = some s') :
    s.handed f ≤ s'.handed f := by
  induction ls generalizing s with
  | nil =>
    cases h
    exact Nat.le_refl _
  | cons l ls ih =>
    obtain ⟨s₁, hs₁, hrest⟩ := Option.bind_eq_some_iff.mp h
    exact (handed_step hs₁).trans (ih hrest)

namespace Waits

theorem apply (hn : n ≤ 2 ^ 64) (hw : Waits f w bound called s) {k : Nat} {pc : Pc n}
    {c : Choice n} {e : Effect n} (hk : s.calls[k]? = some pc) (h : pc.act s.sched c = some e) :
    s.handed f < (s.apply k e).handed f ∨ Waits f w bound called (s.apply k e) := by
  have hadv := Pc.act_advances (w := w) hn h hw.running hw.unfinished
    (hw.spared pc (List.mem_of_getElem? hk))
  obtain ⟨p, hp, hle⟩ := hw.near
  rcases hadv.waits p hp with ⟨hnone, hgot⟩ | ⟨p', hp', hle'⟩
  · have hset := handed_set (e := e) f hk
    rw [hnone, hgot] at hset
    simp at hset
    left
    omega
  · have howed : (s.apply k e).owed w + pc.owed w = s.owed w + e.pc.owed w :=
      sum_map_set (Pc.owed w) hk
    refine .inr ⟨hadv.stopped.trans hw.running, ?_, ?_, p', hp', ?_⟩
    · change (e.sched.fibers f).isFinished = false
      rw [(Pc.act_moves h).fibers]
      exact hw.unfinished
    · intro pc' hpc'
      rcases List.mem_or_eq_of_mem_set hpc' with hmem | rfl
      · exact hw.spared pc' hmem
      · exact hadv.spares
    · change called + p' * round n + turnsUntil w e.sched.nextWorker + 1 ≤ _
      omega

theorem step (hn : n ≤ 2 ^ 64) (hw : Waits f w bound called s) {l : Label n}
    (hl : l.spares f = true) (h : s.step l = some s') :
    s.handed f < s'.handed f
      ∨ Waits f w bound (called + if l.callsNext then 1 else 0) s' := by
  cases l with
  | call op =>
    cases h
    have hcount : Pc.owed w (op.entry (n := n))
        = if (Label.call (n := n) op).callsNext then 1 else 0 := by
      cases op <;> rfl
    rw [← hcount]
    exact .inr (hw.call hl)
  | act k c =>
    obtain ⟨pc, hk, hact⟩ := Option.bind_eq_some_iff.mp h
    obtain ⟨e, he, rfl⟩ := Option.map_eq_some_iff.mp hact
    exact hw.apply hn hk he
  | finish g =>
    cases h
    have hg : g ≠ f := by simpa [Label.spares] using hl
    refine .inr ⟨hw.running, ?_, hw.spared, hw.near⟩
    change (Function.update s.sched.fibers g (s.sched.fibers g).runEnd f).isFinished = false
    rw [Function.update_of_ne hg.symm]
    exact hw.unfinished
  | start =>
    cases h
    refine .inr ⟨?_, hw.unfinished, hw.spared, hw.near⟩
    change s.sched.base.start.1.stopped = false
    unfold BaseScheduler.start
    split
    · exact hw.running
    · rfl
  | stop => cases hl

/-- Induction on the run. -/
theorem exec (hn : n ≤ 2 ^ 64) (hw : Waits f w bound called s) {ls : List (Label n)}
    (hls : ∀ l ∈ ls, l.spares f = true) (h : Trans.exec Sys.step s ls = some s') :
    s.handed f < s'.handed f ∨ Waits f w bound (called + ls.countP Label.callsNext) s' := by
  induction ls generalizing s called with
  | nil =>
    cases h
    exact .inr hw
  | cons l ls ih =>
    obtain ⟨s₁, hs₁, hrest⟩ := Option.bind_eq_some_iff.mp h
    rcases hw.step hn (hls l List.mem_cons_self) hs₁ with hgot | hw₁
    · exact .inl (hgot.trans_le (handed_exec hrest))
    · rcases ih hw₁ (fun l' hl' => hls l' (List.mem_cons_of_mem _ hl')) hrest with hgot | hw'
      · exact .inl ((handed_step hs₁).trans_lt hgot)
      · refine .inr ?_
        rwa [List.countP_cons, Nat.add_comm (ls.countP _), ← Nat.add_assoc]

end Waits

end Sys

end GreenThreads.Scheduler.WorkStealing
