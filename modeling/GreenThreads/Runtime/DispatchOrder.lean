import GreenThreads.Runtime.Timeline

/-!
# GreenThreads — the order of the dispatches

A FIFO or a round-robin scheduler has one queue, and `Next` hands out the fiber that has waited
longest. `running_in_schedule_order` says of whole runs what follows from it, whatever `Stop`,
`Reset` and rollbacks take out of the queue: the fibers run in the order in which `Schedule` took
them.
-/

namespace GreenThreads.Runtime

open Trans

/-! ## The line -/

def runningEvent : BoundedLog.Op FiberEvent → Bool
  | .record e => e.eventType == .running
  | .clear => false

def eventFiber : BoundedLog.Op FiberEvent → Option FiberID
  | .record e => some e.fiberID
  | .clear => none

/-- The fiber that `Next` has handed out and `dispatch` has not marked yet. -/
def LoopPc.waiting : LoopPc → List FiberID
  | .holding f | .marking f => [f]
  | _ => []

/-- The fibers that wait for their dispatch. -/
def State.line (s : State) : List FiberID := s.loop.pc.waiting ++ s.sched.queue.map Entry.fiber

section

variable {c : Config} {s s' : State} {l : Label} {f : FiberID}
  {ops : List (BoundedLog.Op FiberEvent)}

theorem worker_zero (hs : s.Sound c) (hkind : c.kind = .fifo ∨ c.kind = .roundRobin) {e : Entry}
    (he : e ∈ s.sched.queue) : e.worker = 0 := by
  have hlt := (hs.life e.fiber).placed.queues e.worker ((Sched.mem_workersOf ..).mpr he)
  have hone : c.numQueues = 1 := c.single (by rcases hkind with hk | hk <;> rw [hk] <;> decide)
  omega

/-- `Next` takes the first entry. -/
theorem take_head {q : List Entry} {w : Nat} (hzero : ∀ e ∈ q, e.worker = 0)
    (hhead : ((q.filter fun e => e.worker == w).map Entry.fiber).head? = some f) :
    f :: (q.erase ⟨w, f⟩).map Entry.fiber = q.map Entry.fiber := by
  cases q with
  | nil => cases hhead
  | cons e rest =>
    have hworker := hzero e List.mem_cons_self
    by_cases hw : w = 0
    · subst hw
      rw [List.filter_cons_of_pos (by simp [hworker])] at hhead
      have he : e = ⟨0, f⟩ := by
        cases e
        cases hworker
        cases hhead
        rfl
      rw [he, List.erase_cons_head]
      rfl
    · have hnil : (e :: rest).filter (fun e => e.worker == w) = [] := by
        refine List.filter_eq_nil_iff.mpr fun e' he' => ?_
        rw [hzero e' he']
        simpa using Ne.symm hw
      rw [hnil] at hhead
      cases hhead

/-- What the steps of the other threads leave of the queues. -/
theorem step_queue (h : step c s l = some s') (hl : ∀ choice, l ≠ .loop choice) :
    (s'.sched.queue.map Entry.fiber).Sublist (s.sched.queue.map Entry.fiber ++ s.enlists l) := by
  have hsub (hq : s'.sched.queue.Sublist s.sched.queue) :
      (s'.sched.queue.map Entry.fiber).Sublist (s.sched.queue.map Entry.fiber ++ s.enlists l) :=
    (hq.map _).trans (List.sublist_append_left ..)
  cases State.step_effect h with
  | spawn hspawn =>
    cases hspawn with
    | enqueue hpc => simp [State.enlists, hpc, State.setPc, State.setThread, Sched.enqueue]
    | removeFound => exact hsub List.erase_sublist
    | _ => exact hsub (List.Sublist.refl _)
  | loop => exact absurd rfl (hl _)
  | go hgo =>
    cases hgo with
    | markCompleted => exact hsub List.erase_sublist
    | sweep => exact hsub List.filter_sublist
    | _ => exact hsub (List.Sublist.refl _)
  | lifecycle hlife =>
    cases hlife with
    | clearAtOnce | clearWorker => exact hsub List.filter_sublist
    | _ => exact hsub (List.Sublist.refl _)
  | _ => exact hsub (List.Sublist.refl _)

/-- `Next` takes the fiber that has waited longest, and the loop loses it at most. -/
theorem loopStep_line (hs : s.Sound c) (hkind : c.kind = .fifo ∨ c.kind = .roundRobin)
    {choice : LoopChoice} (h : s.loopStep c choice = some s')
    (hmark : ∀ f, s.loop.pc ≠ .marking f) : s'.line.Sublist s.line := by
  have hkept : ∀ w, (s.sched.filterFinished s.finished w).queue.Sublist s.sched.queue :=
    fun _ => List.filter_sublist
  cases State.loopStep_effect h with
  | receive => exact List.Sublist.refl _
  | lookEmpty => exact ((hkept _).map _).append_left _
  | @take w f hpc hmay =>
    have hhead : ((s.sched.filterFinished s.finished w).localQueue w).head? = some f := by
      rcases hkind with hk | hk <;> rw [hk] at hmay <;> simpa [Sched.mayTake] using hmay
    have hline := take_head (fun e he => worker_zero hs hkind ((hkept w).subset he)) hhead
    have hsub : (f :: ((s.sched.filterFinished s.finished w).queue.erase ⟨w, f⟩).map
        Entry.fiber).Sublist (s.sched.queue.map Entry.fiber) := by
      rw [hline]
      exact (hkept w).map _
    rw [show s.line = s.sched.queue.map Entry.fiber by rw [State.line, hpc]; rfl]
    exact hsub
  | @test f hpc =>
    change (f :: s.sched.queue.map Entry.fiber).Sublist (s.loop.pc.waiting ++ _)
    rw [hpc]
    exact List.Sublist.refl _
  | mark hpc => exact absurd hpc (hmark _)
  | done | tick | drained | look | rest | noFibers | drop | launch =>
    exact List.sublist_append_right ..

/-- A step takes a fiber out of the line when it marks it, and puts one at its end when `Schedule`
takes it. -/
theorem line_step (hs : s.Sound c) (hkind : c.kind = .fifo ∨ c.kind = .roundRobin)
    (h : step c s l = some s') (hrec : s.Recorded s' l ops) :
    ((ops.filter runningEvent).filterMap eventFiber ++ s'.line).Sublist
      (s.line ++ s.enlists l) := by
  by_cases hl : ∃ choice, l = .loop choice
  · obtain ⟨choice, rfl⟩ := hl
    rw [show s.enlists (.loop choice) = [] from rfl, List.append_nil]
    cases hrec with
    | nothing hsilent => exact loopStep_line hs hkind h hsilent
    | marked hpc =>
      obtain ⟨-, hpc', hsched⟩ := loopStep_marking hpc h
      rw [State.line, State.line, hpc, hpc', hsched]
      exact List.Sublist.refl _
  · rw [not_exists] at hl
    have hnone : ops.filter runningEvent = [] := by
      cases hrec with
      | marked => exact absurd rfl (hl _)
      | _ => rfl
    have hwaiting : s'.loop.pc.waiting.Sublist s.loop.pc.waiting := by
      rcases step_loop h with hsame | ⟨choice, hloop⟩ | ⟨-, hselect⟩
      · rw [hsame]
      · exact absurd hloop (hl choice)
      · rw [hselect]
        exact List.nil_sublist _
    rw [hnone, State.line, State.line, List.append_assoc]
    exact hwaiting.append (step_queue h hl)

/-! ## Runs -/

/-- The fibers that `Schedule` has taken, each of them once. -/
theorem enlisted_step (hs : s.Sound c) (h : step c s l = some s') {order : List FiberID}
    (hnodup : order.Nodup) (hpub : ∀ f ∈ order, (s.threads f).pc.published = true) :
    (order ++ s.enlists l).Nodup
      ∧ ∀ f ∈ order ++ s.enlists l, (s'.threads f).pc.published = true := by
  have hkept : ∀ f ∈ order, (s'.threads f).pc.published = true := fun f hf =>
    (hs.step_life h f).published (hpub f hf)
  have hsame (hnone : s.enlists l = []) : (order ++ s.enlists l).Nodup
      ∧ ∀ f ∈ order ++ s.enlists l, (s'.threads f).pc.published = true := by
    rw [hnone, List.append_nil]
    exact ⟨hnodup, hkept⟩
  cases l with
  | spawn f w =>
    by_cases hpc : (s.threads f).pc = .enqueue
    · have hnew : f ∉ order := fun hf => by
        have := hpub f hf
        rw [hpc] at this
        cases this
      have hpub' : (s'.threads f).pc.published = true := by
        have hnext := State.spawnStep_next h
        rw [hpc] at hnext
        generalize (s'.threads f).pc = pc at hnext
        cases hnext with
        | enqueue h => rcases h with rfl | rfl <;> rfl
      rw [State.enlists, if_pos hpc]
      refine ⟨List.nodup_append.mpr ⟨hnodup, List.nodup_singleton f, ?_⟩, fun g hg => ?_⟩
      · rintro g hg g' hg' rfl
        exact hnew (List.mem_singleton.mp hg' ▸ hg)
      · rcases List.mem_append.mp hg with hg | hg
        · exact hkept g hg
        · rw [List.mem_singleton.mp hg]
          exact hpub'
    · exact hsame (if_neg hpc)
  | _ => exact hsame rfl

theorem State.Recorded.owner_running (hrec : s.Recorded s' l ops) {op : BoundedLog.Op FiberEvent}
    (hop : op ∈ ops) (hrun : runningEvent op = true) : l.recorder = some .loop := by
  cases hrec with
  | nothing => cases hop
  | marked => rfl
  | spawned => rcases List.mem_pair.mp hop with rfl | rfl <;> cases hrun
  | completed | cleared =>
    rw [List.mem_singleton.mp hop] at hrun
    cases hrun

end

section

variable {c : Config} {s₀ : State} {o : Outbox Enlisted Recorder (BoundedLog.Op FiberEvent)}

theorem watch_running :
    Outbox.Watch (timeline c) (fun e => e.rt.Sound c) runningEvent fun _ => .loop where
  own := fun _ _ _ hop hrun => (State.recorded ..).owner_running hop hrun
  pass := fun _ _ hne => absurd rfl hne

theorem order_nodup (h₀ : Initial c s₀)
    (h : Reach (Outbox.step (timeline c)) anyStep (.new ⟨s₀, []⟩) o) : o.base.order.Nodup := by
  have hall : o.base.rt.Sound c ∧ o.base.order.Nodup
      ∧ ∀ f ∈ o.base.order, (o.base.rt.threads f).pc.published = true := by
    refine (Outbox.reach_base h).invariant (P := fun e : Enlisted => e.rt.Sound c ∧ e.order.Nodup
      ∧ ∀ f ∈ e.order, (e.rt.threads f).pc.published = true)
      ⟨h₀.sound, List.nodup_nil, fun f hf => absurd hf List.not_mem_nil⟩ ?_
    rintro e a e' ⟨hs, hnodup, hpub⟩ - hst
    obtain ⟨hrt, horder⟩ := Enlisted.step_rt hst
    rw [horder]
    exact ⟨hs.step hrt, enlisted_step hs hrt hnodup hpub⟩
  exact hall.2.1

/-- **Fibers run in the order in which they were scheduled.** With a FIFO or a round-robin
scheduler, the fibers whose running has been recorded, followed by those that wait, are in the order
in which `Schedule` took them, over all the runs of a runtime; and none is recorded twice. -/
theorem running_in_schedule_order (hkind : c.kind = .fifo ∨ c.kind = .roundRobin)
    (h₀ : Initial c s₀) (h : Reach (Outbox.step (timeline c)) anyStep (.new ⟨s₀, []⟩) o) :
    ((o.done.filter runningEvent).filterMap eventFiber ++ o.base.rt.line).Sublist o.base.order
      ∧ o.base.order.Nodup := by
  refine ⟨?_, order_nodup h₀ h⟩
  have hseen := (watch_running.invariant
    (Q := fun e ops => (ops.filterMap eventFiber ++ e.rt.line).Sublist e.order)
    h₀.sound sound_step ?_ ?_ h).1
  · refine List.Sublist.trans ?_ hseen
    exact ((Outbox.filter_done_prefix ..).filterMap _).sublist.append_right _
  · rcases h₀ with rfl | rfl <;> exact List.Sublist.refl _
  · intro e a e' ops hs hst hQ
    obtain ⟨hrt, horder⟩ := Enlisted.step_rt hst
    have hline := line_step hs hkind hrt (State.recorded e.rt a.stamp e'.rt a.label)
    rw [horder, List.filterMap_append, List.append_assoc]
    refine (hline.append_left _).trans ?_
    rw [← List.append_assoc]
    exact hQ.append_right _

/-- The first of two fibers runs, the second waits. -/
theorem running_in_schedule_order_second :
    ∃ o : Outbox Enlisted Recorder (BoundedLog.Op FiberEvent),
      Reach (Outbox.step (timeline (.ofNewRuntime .fifo 1))) anyStep
        (.new ⟨.new (.ofNewRuntime .fifo 1), []⟩) o
      ∧ o.base.order = [1, 0] ∧ (o.done.filter runningEvent).filterMap eventFiber = [1]
      ∧ ((o.done.filter runningEvent).filterMap eventFiber ++ o.base.rt.line).Sublist
        o.base.order := by
  obtain ⟨o, ho, htest⟩ := exists_reach_of_exec
    (Outbox.step (timeline (.ofNewRuntime .fifo 1))) (.new ⟨.new (.ofNewRuntime .fifo 1), []⟩)
    (List.flatten
      [(Label.startTrace ++ [Label.call false 5, Label.call false 5] ++ Label.spawnTrace 1 5
          ++ Label.spawnTrace 0 5
          ++ [Label.loop .tick, Label.loop .next, Label.loop (.look 0 (some 1)), Label.loop .next,
            Label.loop .next]).map Label.acted,
        [.perform .loop]])
    (fun o => decide (o.base.order = [1, 0])
      && decide ((o.done.filter runningEvent).filterMap eventFiber = [1]))
    (by decide +kernel)
  obtain ⟨horder, hrunning⟩ := Bool.and_eq_true_iff.mp htest
  exact ⟨o, ho, of_decide_eq_true horder, of_decide_eq_true hrunning,
    (running_in_schedule_order (.inl rfl) (.inl rfl) ho).1⟩

end

end GreenThreads.Runtime
