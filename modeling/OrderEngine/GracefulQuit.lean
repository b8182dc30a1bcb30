import OrderEngine.ReactorQueue

/-!
# Quitting the loop

`quit` sets a flag that `loop` reads between one round and the next. The round in which it
does so may have swapped the task queue before, and then does not look at it again.
-/
namespace GracefulQuit

open Reactor ReactorQueue

/-- The loop has swapped the queue for the last time before it tests `quit_`. -/
def Late : Pc → Prop
  | .test => True
  | .batch _ => True
  | .task _ => True
  | .returned => True
  | _ => False

/-- The loop will swap the queue before it tests `quit_`. -/
def Early : Pc → Prop
  | .poll => True
  | .dispatch _ => True
  | .callback _ => True
  | .swap => True
  | _ => False

/-- A late loop that is to quit runs on with its batch, and stays late. -/
theorem late_step {loop : Thread} {s s' : State} {a : Action} (hlate : Late s.pc)
    (hquit : s.quit = true) (hstep : step loop s a = some s') :
    Late s'.pc ∧ s'.quit = true ∧ batchRest s.pc = ran s a ++ batchRest s'.pc := by
  cases outcome_of_step hstep with
  | enterLoop hpc | polls hpc | pollReturns _ hpc | dispatchEnds hpc | dispatchWakeup _ hpc
  | dispatchChannel _ _ hpc | callbackReturns _ hpc | swapTasks hpc => simp_all [Late]
  | leaves hpc | batchEnds hpc | taskBegins _ _ hpc | taskReturns _ hpc =>
    simp_all [Late, ran, batchRest]
  | queueInLoop | skipsWakeup | runsInline | runsQueued | inlineReturns | quit | quitsInLoop
  | updateChannel =>
    simp_all [ran, State.pushTask, State.endCall, State.runInline, State.endInline, State.setQuit,
      State.assertInLoopThread]
  | wakesAfterPush t | wakesAfterQuit t =>
    obtain ⟨n, _, hwake⟩ := wakeup_eq (s.endCall t)
    rw [hwake]
    simp_all [ran, State.endCall]

/-- An early loop stays early and runs nothing until it swaps the queue. -/
theorem early_step {loop : Thread} {s s' : State} {a : Action} (hearly : Early s.pc)
    (hquit : s.quit = true) (hstep : step loop s a = some s') :
    s'.quit = true ∧ ran s a = [] ∧
      (Early s'.pc ∧ s.pendingTasks.length ≤ s'.pendingTasks.length ∨
        Late s'.pc ∧ batchRest s'.pc = s.pendingTasks) := by
  cases outcome_of_step hstep with
  | enterLoop hpc | leaves hpc | polls hpc | batchEnds hpc | taskBegins _ _ hpc
  | taskReturns _ hpc => simp_all [Early]
  | pollReturns _ hpc | dispatchEnds hpc | dispatchWakeup _ hpc
  | dispatchChannel _ _ hpc | callbackReturns _ hpc =>
    simp_all [Early, ran, State.handleWakeup]
  | swapTasks hpc => simp_all [Late, ran, State.swapTasks, batchRest]
  | queueInLoop | skipsWakeup | runsInline | runsQueued | inlineReturns | quit | quitsInLoop
  | updateChannel =>
    simp_all [ran, State.pushTask, State.endCall, State.runInline, State.endInline, State.setQuit,
      State.assertInLoopThread]
  | wakesAfterPush t | wakesAfterQuit t =>
    obtain ⟨n, _, hwake⟩ := wakeup_eq (s.endCall t)
    rw [hwake]
    simp_all [ran, State.endCall]

/-- From a late state, the loop runs the rest of its batch and returns. -/
theorem late_runs {loop : Thread} {s s' : State} {after : List Action} (hlate : Late s.pc)
    (hquit : s.quit = true) (hrun : Runs.exec (step loop) s after = some s')
    (hreturned : s'.pc = .returned) :
    Flow.emitted (step loop) ran s after = batchRest s.pc := by
  induction after generalizing s with
  | nil =>
    cases hrun
    rw [hreturned]
    rfl
  | cons a rest ih =>
    obtain ⟨t, ht, hrest⟩ := Runs.exec_cons_iff.mp hrun
    obtain ⟨hlate', hquit', hbatch⟩ := late_step hlate hquit ht
    rw [Flow.emitted_cons ht, ih hlate' hquit' hrest, hbatch]

/-- From an early state, the loop runs at least the tasks that are pending. -/
theorem early_runs {loop : Thread} {s s' : State} {after : List Action} (hearly : Early s.pc)
    (hquit : s.quit = true) (hrun : Runs.exec (step loop) s after = some s')
    (hreturned : s'.pc = .returned) :
    s.pendingTasks.length ≤ (Flow.emitted (step loop) ran s after).length := by
  induction after generalizing s with
  | nil =>
    cases hrun
    rw [hreturned] at hearly
    exact hearly.elim
  | cons a rest ih =>
    obtain ⟨t, ht, hrest⟩ := Runs.exec_cons_iff.mp hrun
    obtain ⟨hquit', hran, hnext⟩ := early_step hearly hquit ht
    rw [Flow.emitted_cons ht, hran, List.nil_append]
    rcases hnext with ⟨hearly', hpending⟩ | ⟨hlate, hbatch⟩
    · exact Nat.le_trans hpending (ih hearly' hquit' hrest)
    · rw [late_runs hlate hquit' hrest hreturned, hbatch]

/-- The thread whose call of `queueInLoop` pushes a task by this step. -/
def pusher (s : State) : Action → Option Thread
  | .queueInLoop t _ => some t
  | .runInLoop t _ => if s.isInLoopThread t then none else some t
  | _ => none

theorem length_queued {s : State} {a : Action} {t : Thread} (h : pusher s a = some t) :
    (queued s a).length = 1 := by
  cases a with
  | runInLoop t' task =>
    cases hloop : s.isInLoopThread t' <;> simp_all [pusher, queued]
  | _ => simp_all [pusher, queued]

section
variable (constructor loop : Thread)

/-- The tasks pushed in the run, and those that `doPendingTasks` has run. -/
def pushed (acts : List Action) : List Task :=
  Flow.emitted (step loop) queued (construct constructor) acts

def executed (acts : List Action) : List Task :=
  Flow.emitted (step loop) ran (construct constructor) acts

/-- The call of `queueInLoop` that pushed the task number `n` of the run has returned. -/
def Returned (acts : List Action) (n : Nat) : Prop :=
  ∃ first push t middle last s, acts = first ++ push :: (middle ++ .wakeupAfterPush t :: last) ∧
    Runs.exec (step loop) (construct constructor) first = some s ∧ pusher s push = some t ∧
    .wakeupAfterPush t ∉ middle ∧ n = (pushed constructor loop first).length

end

/-- A call of `queueInLoop` that has returned has pushed its task. -/
theorem returned_lt {constructor loop : Thread} {acts : List Action} {s : State} {n : Nat}
    (hrun : Runs.exec (step loop) (construct constructor) acts = some s)
    (h : Returned constructor loop acts n) : n < (pushed constructor loop acts).length := by
  obtain ⟨first, push, t, middle, last, u, rfl, hfirst, hpush, _, rfl⟩ := h
  obtain ⟨u', hu', hrest⟩ := Runs.exec_append_iff.mp hrun
  rw [hfirst] at hu'
  cases hu'
  obtain ⟨v, hv, _⟩ := Runs.exec_cons_iff.mp hrest
  have hlength := length_queued hpush
  simp only [pushed]
  rw [Flow.emitted_append hfirst, Flow.emitted_cons hv, List.length_append, List.length_append]
  omega

/-- The tasks run and waiting are those pushed. -/
theorem length_pushed {constructor loop : Thread} {acts : List Action} {s : State}
    (hrun : Runs.exec (step loop) (construct constructor) acts = some s) :
    (pushed constructor loop acts).length =
      (executed constructor loop acts).length + (batchRest s.pc).length + s.pendingTasks.length := by
  have htaken := congrArg List.length (Flow.taken_eq (conserves_step loop) rfl hrun)
  simp only [waiting, List.length_append] at htaken
  simp only [pushed, executed]
  omega

/-- The loop has run, when it returns, every task whose `queueInLoop` had returned before `quit`
was called, exactly when `quit` is called before the last swap of the queue, or while none of
these tasks is pending. -/
theorem quit_graceful_iff {constructor loop u : Thread} {before after : List Action}
    {s s' : State} (hbefore : Runs.exec (step loop) (construct constructor) before = some s)
    (hinside : s.pc ≠ .outside)
    (hafter : Runs.exec (step loop) s (.quit u :: after) = some s') (hreturned : s'.pc = .returned) :
    (∀ n, Returned constructor loop before n →
        n < (executed constructor loop (before ++ .quit u :: after)).length) ↔
      (Late s.pc → ∀ n, Returned constructor loop before n →
        n + s.pendingTasks.length < (pushed constructor loop before).length) := by
  obtain ⟨t, ht, hrest⟩ := Runs.exec_cons_iff.mp hafter
  obtain ⟨_, rfl⟩ := Runs.guarded_eq_some.mp ht
  have hlength := length_pushed hbefore
  have hexecuted : (executed constructor loop (before ++ .quit u :: after)).length =
      (executed constructor loop before).length +
        (Flow.emitted (step loop) ran (s.setQuit u) after).length := by
    simp only [executed]
    rw [Flow.emitted_append hbefore, Flow.emitted_cons ht, List.length_append]
    rfl
  have hcases : Early s.pc ∧ ¬ Late s.pc ∧ batchRest s.pc = [] ∨ Late s.pc := by
    cases hpc : s.pc <;> simp_all [Early, Late, batchRest]
  rcases hcases with ⟨hearly, hnot, hempty⟩ | hlate
  · have hruns := early_runs (s := s.setQuit u) hearly rfl hrest hreturned
    refine iff_of_true ?_ (fun h => absurd h hnot)
    intro n hn
    have hlt := returned_lt hbefore hn
    have hpending : (s.setQuit u).pendingTasks = s.pendingTasks := rfl
    rw [hpending] at hruns
    rw [hempty, List.length_nil] at hlength
    omega
  · have hruns := congrArg List.length
      (late_runs (s := s.setQuit u) hlate rfl hrest hreturned)
    have hbatch : batchRest (s.setQuit u).pc = batchRest s.pc := rfl
    rw [hbatch] at hruns
    rw [hexecuted, hruns]
    simp only [hlate, forall_const]
    constructor
    · intro h n hn
      have hlt := h n hn
      omega
    · intro h n hn
      have hlt := h n hn
      omega

/-- A task is queued, and then the loop is told to quit, while it polls. -/
def queuedInPoll : List Action := [.enterLoop, .testQuit, .queueInLoop 1 7, .wakeupAfterPush 1]

def roundAfterPoll : List Action :=
  [.wakeupAfterQuit 1, .pollReturns [], .dispatchNext, .swapTasks, .nextTask, .taskReturns,
    .nextTask, .testQuit]

theorem quit_graceful_iff_inPoll :
    (∀ n, Returned 0 0 queuedInPoll n →
      n < (executed 0 0 (queuedInPoll ++ .quit 1 :: roundAfterPoll)).length) ∧
    Returned 0 0 queuedInPoll 0 := by
  have hbefore : Runs.exec (step 0) (construct 0) queuedInPoll = some _ := rfl
  constructor
  · exact (@quit_graceful_iff 0 0 1 queuedInPoll roundAfterPoll _ _ hbefore (by decide) rfl
      rfl).mpr (fun hlate => hlate.elim)
  · exact ⟨[.enterLoop, .testQuit], .queueInLoop 1 7, 1, [], [], _, rfl, rfl, rfl, by decide, rfl⟩

/-- The same after the swap of the round. -/
def queuedAfterSwap : List Action :=
  [.enterLoop, .testQuit, .pollReturns [], .dispatchNext, .swapTasks, .queueInLoop 1 7,
    .wakeupAfterPush 1]

/-- The loop returns without having run the task. -/
theorem quit_loses_task : ∃ s s',
    Runs.exec (step 0) (construct 0) queuedAfterSwap = some s ∧
      Runs.exec (step 0) s [.quit 1, .wakeupAfterQuit 1, .nextTask, .testQuit] = some s' ∧
      s'.pc = .returned ∧ Returned 0 0 queuedAfterSwap 0 ∧ s'.executed = [] ∧
      s'.pendingTasks = [7] ∧
      executed 0 0 (queuedAfterSwap ++ [.quit 1, .wakeupAfterQuit 1, .nextTask, .testQuit]) = [] := by
  refine ⟨_, _, rfl, rfl, rfl, ?_, rfl, rfl, rfl⟩
  exact ⟨[.enterLoop, .testQuit, .pollReturns [], .dispatchNext, .swapTasks], .queueInLoop 1 7, 1,
    [], [], _, rfl, rfl, rfl, by decide, rfl⟩

end GracefulQuit
