import OrderEngine.Reactor

/-!
# No lost wakeup

A task that waits in the queue when the loop thread goes to sleep is announced by
the eventfd, or will be by a thread that has pushed it and not woken the loop yet.
The swap of `doPendingTasks` empties the queue after the counter has been drained,
and from then on every push is followed by a wakeup, also one by a task.
-/
namespace ReactorWakeup

open Reactor

/-- A queued task is announced, or its thread has still to announce it. -/
def Covered (s : State) : Prop :=
  s.pendingTasks = [] ∨ 0 < s.eventCount ∨ ∃ t, s.call t = some .pushed

/-- The program points after the swap and before the next dispatch. -/
def awaitsWakeup : Pc → Bool
  | .test => true
  | .poll => true
  | .batch _ => true
  | .task _ => true
  | _ => false

/-- The program points at which `calling_pending_tasks_` is set. -/
def callsTasks : Pc → Bool
  | .swap => true
  | .batch _ => true
  | .task _ => true
  | _ => false

/-- The loop thread at the head of `loop()`, with an empty queue. -/
structure Entered (loop : Thread) (s : State) : Prop where
  pc : s.pc = .test
  threadId : s.threadId = loop
  calling : s.callingPendingTasks = false
  call : s.call loop = none
  pending : s.pendingTasks = []

structure Wakes (loop : Thread) (s : State) : Prop where
  entered : s.pc ≠ .outside
  threadId : s.threadId = loop
  calling : s.callingPendingTasks = callsTasks s.pc
  idle : s.pc.userCode = false → s.call loop = none
  covered : awaitsWakeup s.pc = true → Covered s

theorem wakes_entered {loop : Thread} {s : State} (h : Entered loop s) : Wakes loop s := by
  refine ⟨?_, h.threadId, ?_, fun _ => h.call, fun _ => .inl h.pending⟩
  · rw [h.pc]
    simp
  · rw [h.calling, h.pc]
    rfl

/-- The loop thread moves on to a point of the same kind. -/
theorem wakes_move {loop : Thread} {s : State} (h : Wakes loop s) {pc : Pc}
    (hentered : pc ≠ .outside) (hcalls : callsTasks pc = callsTasks s.pc)
    (hidle : s.call loop = none) (hawaits : awaitsWakeup pc = true → awaitsWakeup s.pc = true) :
    Wakes loop { s with pc := pc } :=
  ⟨hentered, h.threadId, h.calling.trans hcalls.symm, fun _ => hidle,
    fun hpc => h.covered (hawaits hpc)⟩

theorem wakes_of_eq {loop : Thread} {s s' : State} (h : Wakes loop s) (hpc : s'.pc = s.pc)
    (hthread : s'.threadId = s.threadId)
    (hcalling : s'.callingPendingTasks = s.callingPendingTasks)
    (hpending : s'.pendingTasks = s.pendingTasks) (hcount : s'.eventCount = s.eventCount)
    (hcall : s'.call = s.call) : Wakes loop s' := by
  refine ⟨by rw [hpc]; exact h.entered, by rw [hthread, h.threadId],
    by rw [hcalling, hpc, h.calling], ?_, ?_⟩
  · rw [hpc, hcall]
    exact h.idle
  · unfold Covered
    rw [hpc, hpending, hcount, hcall]
    exact h.covered

/-- A thread that may begin a call is not the loop thread at a point of its own. -/
theorem idle_begins {loop t : Thread} {s : State} (h : Wakes loop s) (hmay : s.MayCall loop t)
    (call : Option Call) :
    s.pc.userCode = false → Function.update s.call t call loop = none := by
  intro hpc
  have hne : loop ≠ t := by
    rintro rfl
    rw [hmay.2 rfl] at hpc
    cases hpc
  rw [Function.update_of_ne hne]
  exact h.idle hpc

/-- A push comes with the obligation to wake the loop. -/
theorem wakes_pushTask {loop t : Thread} {s : State} (h : Wakes loop s) (hmay : s.MayCall loop t)
    (task : Task) : Wakes loop (s.pushTask t task) := by
  refine ⟨h.entered, h.threadId, h.calling, idle_begins h hmay _, ?_⟩
  intro _
  exact .inr (.inr ⟨t, by simp [State.pushTask]⟩)

theorem endCall_idle {loop t : Thread} {s : State} (h : Wakes loop s) :
    s.pc.userCode = false → (s.endCall t).call loop = none := by
  intro hpc
  by_cases heq : loop = t
  · simp [State.endCall, heq]
  · simp only [State.endCall, Function.update_of_ne heq]
    exact h.idle hpc

theorem wakes_wakeup {loop : Thread} {s : State} (h : Wakes loop s) (t : Thread) :
    Wakes loop (s.endCall t).wakeup := by
  obtain ⟨n, hpos, heq⟩ := wakeup_eq (s.endCall t)
  rw [heq]
  exact ⟨h.entered, h.threadId, h.calling, endCall_idle h, fun _ => .inr (.inl hpos)⟩

/-- The loop thread leaves out the wakeup only in a callback, and there the swap
is still to come. -/
theorem wakes_skip {loop t : Thread} {s : State} (h : Wakes loop s)
    (hcall : s.call t = some .pushed) (hloop : s.isInLoopThread t = true)
    (hcalling : s.callingPendingTasks = false) : Wakes loop (s.endCall t) := by
  refine ⟨h.entered, h.threadId, h.calling, endCall_idle h, ?_⟩
  intro hawaits
  have ht : t = loop := by
    rw [← h.threadId]
    simpa [State.isInLoopThread, eq_comm] using hloop
  have hcalls : callsTasks s.pc = false := by rw [← h.calling, hcalling]
  have huser : s.pc.userCode = true := by
    by_contra hno
    rw [ht, h.idle (by simpa using hno)] at hcall
    cases hcall
  have hnever : awaitsWakeup s.pc = false := by
    cases hpc : s.pc <;> simp_all [callsTasks, awaitsWakeup, Pc.userCode]
  rw [State.endCall, hnever] at hawaits
  cases hawaits

/-- A change of a thread's call that is no push leaves the pushes of the others. -/
theorem covered_update {s : State} (h : Covered s) {t : Thread}
    (hcall : s.call t ≠ some .pushed) (call : Option Call) :
    Covered { s with call := Function.update s.call t call } := by
  rcases h with hempty | hcount | ⟨u, hu⟩
  · exact .inl hempty
  · exact .inr (.inl hcount)
  · have hne : u ≠ t := by
      rintro rfl
      exact hcall hu
    exact .inr (.inr ⟨u, by simpa [Function.update_of_ne hne] using hu⟩)

theorem wakes_step (loop : Thread) (s : State) (a : Action) (s' : State) (h : Wakes loop s)
    (hstep : step loop s a = some s') : Wakes loop s' := by
  have hidle : s.pc.userCode = false → s.call loop = none := h.idle
  cases outcome_of_step hstep with
  | enterLoop hpc => exact absurd hpc h.entered
  | leaves hpc | polls hpc | pollReturns _ hpc | dispatchChannel _ _ hpc =>
    rw [hpc] at hidle
    exact wakes_move h (by simp) (by rw [hpc]; rfl) (hidle rfl) (by simp [hpc, awaitsWakeup])
  | callbackReturns rest hpc hcall =>
    exact wakes_move h (by simp) (by rw [hpc]; rfl) hcall (by simp [awaitsWakeup])
  | taskReturns rest hpc hcall =>
    exact wakes_move h (by simp) (by rw [hpc]; rfl) hcall (by simp [hpc, awaitsWakeup])
  | dispatchEnds hpc =>
    rw [hpc] at hidle
    exact ⟨by simp, h.threadId, rfl, fun _ => hidle rfl, by simp [awaitsWakeup]⟩
  | dispatchWakeup rest hpc =>
    rw [hpc] at hidle
    have hcalling := h.calling
    rw [hpc] at hcalling
    exact ⟨by simp, h.threadId, hcalling, fun _ => hidle rfl, by simp [awaitsWakeup]⟩
  | swapTasks hpc =>
    rw [hpc] at hidle
    have hcalling := h.calling
    rw [hpc] at hcalling
    exact ⟨by simp [State.swapTasks], h.threadId, hcalling, fun _ => hidle rfl, fun _ => .inl rfl⟩
  | batchEnds hpc =>
    rw [hpc] at hidle
    have hcovered := h.covered (by rw [hpc]; rfl)
    exact ⟨by simp, h.threadId, rfl, fun _ => hidle rfl, fun _ => hcovered⟩
  | taskBegins task rest hpc =>
    rw [hpc] at hidle
    have hcalling := h.calling
    have hcovered := h.covered (by rw [hpc]; rfl)
    rw [hpc] at hcalling
    exact ⟨by simp, h.threadId, hcalling, fun _ => hidle rfl, fun _ => hcovered⟩
  | queueInLoop t task hmay | runsQueued t task hmay => exact wakes_pushTask h hmay task
  | wakesAfterPush t | wakesAfterQuit t => exact wakes_wakeup h t
  | skipsWakeup t hcall hloop hcalling => exact wakes_skip h hcall hloop hcalling
  | runsInline | inlineReturns | updateChannel => exact wakes_of_eq h rfl rfl rfl rfl rfl rfl
  | quit t hmay =>
    refine ⟨h.entered, h.threadId, h.calling, idle_begins h hmay _, ?_⟩
    intro hawaits
    exact covered_update (h.covered hawaits) (by rw [hmay.1]; simp) _
  | quitsInLoop t hcall =>
    refine ⟨h.entered, h.threadId, h.calling, endCall_idle h, ?_⟩
    intro hawaits
    exact covered_update (h.covered hawaits) (by rw [hcall]; simp) _

/-- Whenever the loop thread is about to enter or is blocked in `poll` and a task
is queued, the eventfd is readable or another thread has still to write to it. -/
theorem no_lost_wakeup {loop : Thread} {s : State}
    (hs : Runs.Reachable (Entered loop) (step loop) s) (hpc : s.pc = .test ∨ s.pc = .poll)
    (hpending : s.pendingTasks ≠ []) :
    0 < s.eventCount ∨ ∃ t, t ≠ loop ∧ s.call t = some .pushed := by
  have hwakes : Wakes loop s :=
    Runs.invariant_reachable (Wakes loop) (fun _ => wakes_entered) (wakes_step loop) hs
  have hawaits : awaitsWakeup s.pc = true := by
    rcases hpc with hpc | hpc <;> simp [hpc, awaitsWakeup]
  have hidle : s.call loop = none := by
    apply hwakes.idle
    rcases hpc with hpc | hpc <;> simp [hpc, Pc.userCode]
  rcases hwakes.covered hawaits with hempty | hcount | ⟨t, ht⟩
  · exact absurd hempty hpending
  · exact .inl hcount
  · refine .inr ⟨t, ?_, ht⟩
    rintro rfl
    rw [hidle] at ht
    cases ht

/-- The reactor of thread 0, in its loop. -/
def running : State := { construct 0 with pc := .test }

/-- Thread 1 has pushed a task while the loop thread sleeps in `poll`. -/
theorem sleeping_push_covered : ∃ s,
    Runs.exec (step 0) running [.testQuit, .queueInLoop 1 7] = some s ∧ s.pc = .poll ∧
      (0 < s.eventCount ∨ ∃ t, t ≠ 0 ∧ s.call t = some .pushed) := by
  refine ⟨_, rfl, rfl, ?_⟩
  have hentered : Entered 0 running := ⟨rfl, rfl, rfl, rfl, rfl⟩
  exact no_lost_wakeup ⟨running, [.testQuit, .queueInLoop 1 7], hentered, rfl⟩
    (.inr rfl) (by decide)

end ReactorWakeup
