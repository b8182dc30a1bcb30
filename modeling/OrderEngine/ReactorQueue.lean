import OrderEngine.Library.Flow
import OrderEngine.Reactor

/-!
# The task queue is first in, first out

`doPendingTasks` swaps the queue out and runs the batch, while other threads and
the running tasks push. The rest of the batch and `pending_tasks_` together are one
buffer: the pushes go in at its back, the tasks leave it at its front.
-/
namespace ReactorQueue

open Reactor

/-- The tasks of the current batch that have not been run yet. -/
def batchRest : Pc → List Task
  | .batch tasks => tasks
  | .task tasks => tasks
  | _ => []

/-- The tasks that wait to be run, in the order in which they will be. -/
def waiting (s : State) : List Task := batchRest s.pc ++ s.pendingTasks

/-- The task that the step pushes under `pending_tasks_mutex_`. -/
def queued (s : State) : Action → List Task
  | .queueInLoop _ task => [task]
  | .runInLoop t task => if s.isInLoopThread t then [] else [task]
  | _ => []

/-- The task that the step of `doPendingTasks` runs. -/
def ran (s : State) : Action → List Task
  | .nextTask =>
    match s.pc with
    | .batch (task :: _) => [task]
    | _ => []
  | _ => []

/-- The executions that the step begins: `doPendingTasks` runs a task of its batch on the
loop's thread, `runInLoop` on the reactor's own thread runs its task at once. -/
def executes (loop : Thread) (s : State) : Action → List (Task × Thread)
  | .runInLoop t task => if s.isInLoopThread t then [(task, t)] else []
  | a => (ran s a).map (fun task => (task, loop))

theorem executed_wakeup (s : State) : s.wakeup.executed = s.executed := by
  obtain ⟨n, _, h⟩ := wakeup_eq s
  rw [h]

theorem executed_step {loop : Thread} {s s' : State} {a : Action}
    (hstep : step loop s a = some s') : s'.executed = s.executed ++ executes loop s a := by
  cases outcome_of_step hstep with
  | taskBegins task rest hpc | batchEnds hpc => simp [executes, ran, hpc]
  | runsInline t task _ hloop => simp [executes, State.runInline, hloop]
  | runsQueued t task _ hloop => simp [executes, State.pushTask, hloop]
  | wakesAfterPush t | wakesAfterQuit t =>
    rw [executed_wakeup]
    simp [executes, ran, State.endCall]
  | enterLoop | leaves | polls | pollReturns | dispatchEnds | dispatchWakeup | dispatchChannel
  | callbackReturns | swapTasks | taskReturns | queueInLoop | skipsWakeup | inlineReturns | quit
  | quitsInLoop | updateChannel =>
    simp [executes, ran, State.enterLoop, State.handleWakeup, State.swapTasks, State.pushTask,
      State.endCall, State.endInline, State.setQuit, State.assertInLoopThread]

theorem executed_eq {constructor loop : Thread} {acts : List Action} {s : State}
    (hrun : Runs.exec (step loop) (construct constructor) acts = some s) :
    s.executed = Flow.emitted (step loop) (executes loop) (construct constructor) acts :=
  Flow.appended_exec (fun _ => True) State.executed (fun _ _ _ _ _ => trivial)
    (fun _ _ _ _ hstep => executed_step hstep) trivial hrun

/-- The tasks that `doPendingTasks` has run are executed on the loop's thread in their order,
and what is executed besides has been run by `runInLoop` at once. -/
theorem ran_executed {constructor loop : Thread} {acts : List Action} {s : State}
    (hrun : Runs.exec (step loop) (construct constructor) acts = some s) :
    ((Flow.emitted (step loop) ran (construct constructor) acts).map
      (fun task => (task, loop))).Sublist s.executed := by
  rw [executed_eq hrun, ← Flow.emitted_map]
  apply Flow.emitted_sublist
  intro s a s' _
  cases a with
  | runInLoop => exact List.nil_sublist _
  | _ => exact List.Sublist.refl _

theorem waiting_wakeup (s : State) : waiting s.wakeup = waiting s := by
  obtain ⟨n, _, h⟩ := wakeup_eq s
  rw [h]
  rfl

/-- Each step passes the tasks on in their order. -/
theorem conserves_step (loop : Thread) (s : State) (a : Action) (s' : State)
    (hstep : step loop s a = some s') : Flow.Conserves waiting queued ran s a s' := by
  unfold Flow.Conserves
  cases outcome_of_step hstep with
  | enterLoop hpc | leaves hpc | polls hpc | pollReturns _ hpc | dispatchEnds hpc
  | dispatchWakeup _ hpc | dispatchChannel _ _ hpc | callbackReturns _ hpc =>
    simp [waiting, queued, ran, batchRest, hpc, State.enterLoop, State.handleWakeup]
  | swapTasks hpc => simp [waiting, queued, ran, batchRest, hpc, State.swapTasks]
  | batchEnds hpc => simp [waiting, queued, ran, batchRest, hpc]
  | taskBegins task rest hpc => simp [waiting, queued, ran, batchRest, hpc]
  | taskReturns rest hpc => simp [waiting, queued, ran, batchRest, hpc]
  | queueInLoop t task => simp [waiting, queued, ran, State.pushTask]
  | runsQueued t task _ hloop => simp [waiting, queued, ran, State.pushTask, hloop]
  | runsInline t task _ hloop => simp [waiting, queued, ran, State.runInline, hloop]
  | wakesAfterPush t | wakesAfterQuit t =>
    rw [waiting_wakeup]
    simp [waiting, queued, ran, State.endCall]
  | skipsWakeup | quitsInLoop | inlineReturns | quit | updateChannel =>
    simp [waiting, queued, ran, State.endCall, State.endInline, State.setQuit,
      State.assertInLoopThread]

/-- In every state of every run, the tasks that `doPendingTasks` has run, the rest of
its batch and the queue are the pushed tasks in the order of their pushes. -/
theorem tasks_in_order {constructor loop : Thread} {acts : List Action} {s : State}
    (hrun : Runs.exec (step loop) (construct constructor) acts = some s) :
    Flow.emitted (step loop) ran (construct constructor) acts ++
        (batchRest s.pc ++ s.pendingTasks) =
      Flow.emitted (step loop) queued (construct constructor) acts :=
  Flow.taken_eq (conserves_step loop) rfl hrun

/-- Thread 1 pushes task 1; while it runs, it pushes task 2 and thread 1 pushes 3. -/
def requeue : List Action :=
  [.enterLoop, .testQuit, .queueInLoop 1 1, .pollReturns [], .dispatchNext, .swapTasks, .nextTask,
    .queueInLoop 0 2, .wakeupAfterPush 1, .queueInLoop 1 3]

theorem tasks_in_order_requeue : ∃ s,
    Runs.exec (step 0) (construct 0) requeue = some s ∧
      Flow.emitted (step 0) ran (construct 0) requeue ++ (batchRest s.pc ++ s.pendingTasks) =
        Flow.emitted (step 0) queued (construct 0) requeue ∧
      Flow.emitted (step 0) queued (construct 0) requeue = [1, 2, 3] ∧ s.executed = [(1, 0)] := by
  have hrun : Runs.exec (step 0) (construct 0) requeue = some _ := rfl
  exact ⟨_, hrun, tasks_in_order hrun, by decide, by decide⟩

end ReactorQueue
