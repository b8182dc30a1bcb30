import OrderEngine.LoopTermination

/-!
# How soon a queued task begins

A task waits behind the others of its batch and of the queue. Whatever other threads queue or
call meanwhile, the loop thread polls at most once more before the task begins, and the steps
that it makes until then are those of the tasks and the channels before it.
-/
namespace TaskLatency

open Reactor ReactorQueue LoopTermination

/-- The polls before the waiting task at the position `k` begins: none if the task is in the
batch or its swap is next. -/
def pollsBefore (k : Nat) (s : State) : Nat :=
  match s.pc with
  | .outside | .test | .poll => 1
  | .batch tasks | .task tasks => if k < tasks.length then 0 else 1
  | .dispatch _ | .callback _ | .swap | .returned => 0

/-- The steps in `loop()` up to its beginning. A task before it takes two steps, a channel at most
two; a poll may add some for the channels that it reports. -/
def stepsBefore (k : Nat) (s : State) : Nat :=
  match s.pc with
  | .outside | .test => 2 * k + 5
  | .poll => 2 * k + 4
  | .dispatch active => 2 * active.length + (2 * k + 3)
  | .callback active => 2 * active.length + (2 * k + 4)
  | .swap => 2 * k + 2
  | .batch tasks => 2 * k + 1 + (if k < tasks.length then 0 else 5)
  | .task tasks => 2 * k + 2 + (if k < tasks.length then 0 else 5)
  | .returned => 0

/-- The steps that the channels which a poll reports may take. -/
def reported (_ : State) : Action → Nat
  | .pollReturns active => 2 * active.length
  | _ => 0

/-- A step that runs a task moves those behind it up, and every other step leaves them. -/
theorem waits_step (loop : Thread) (k : Nat) (s : State) (a : Action) (t : State)
    (hwaits : k < (waiting s).length) (hran : (ran s a).length ≤ k)
    (h : step loop s a = some t) : k - (ran s a).length < (waiting t).length := by
  have hlength := congrArg List.length (conserves_step loop s a t h)
  rw [List.length_append, List.length_append] at hlength
  omega

theorem pollsBefore_le (k : Nat) (s : State) : pollsBefore k s ≤ 1 := by
  unfold pollsBefore
  repeat' split
  all_goals omega

theorem pollsBefore_wakeup (k : Nat) (s : State) (t : Thread) :
    pollsBefore k (s.endCall t).wakeup = pollsBefore k s := by
  obtain ⟨n, _, hwake⟩ := wakeup_eq (s.endCall t)
  rw [hwake]
  rfl

theorem stepsBefore_wakeup (k : Nat) (s : State) (t : Thread) :
    stepsBefore k (s.endCall t).wakeup = stepsBefore k s := by
  obtain ⟨n, _, hwake⟩ := wakeup_eq (s.endCall t)
  rw [hwake]
  rfl

theorem pollsBefore_step (loop : Thread) (k : Nat) (s : State) (a : Action) (t : State)
    (hwaits : k < (waiting s).length) (hran : (ran s a).length ≤ k)
    (h : step loop s a = some t) :
    (if IsPoll a then 1 else 0) + pollsBefore (k - (ran s a).length) t ≤ pollsBefore k s + 0 := by
  cases outcome_of_step h with
  | enterLoop hpc | leaves hpc | polls hpc | pollReturns _ hpc | dispatchEnds hpc
  | dispatchWakeup _ hpc | dispatchChannel _ _ hpc | callbackReturns _ hpc | batchEnds hpc
  | taskReturns _ hpc =>
    simp [IsPoll, pollsBefore, ran, hpc, State.enterLoop]
  | swapTasks hpc =>
    simp only [waiting, batchRest, hpc, List.nil_append] at hwaits
    simp [IsPoll, pollsBefore, ran, hpc, State.swapTasks, hwaits]
  | taskBegins task rest hpc =>
    have hahead : 1 ≤ k := by simpa [ran, hpc] using hran
    have hposition : k - 1 < rest.length ↔ k < rest.length + 1 := by omega
    simp [IsPoll, pollsBefore, ran, hpc, hposition]
  | wakesAfterPush u | wakesAfterQuit u =>
    rw [pollsBefore_wakeup]
    simp [IsPoll, ran]
  | queueInLoop | runsQueued | skipsWakeup | runsInline | inlineReturns | quit | quitsInLoop
  | updateChannel =>
    simp only [IsPoll, ran, Bool.false_eq_true, if_false, Nat.zero_add]
    exact Nat.le_refl _

theorem stepsBefore_step (loop : Thread) (k : Nat) (s : State) (a : Action) (t : State)
    (hwaits : k < (waiting s).length) (hran : (ran s a).length ≤ k)
    (h : step loop s a = some t) :
    (if InLoop a then 1 else 0) + stepsBefore (k - (ran s a).length) t ≤
      stepsBefore k s + reported s a := by
  cases outcome_of_step h with
  | enterLoop hpc | leaves hpc | polls hpc | dispatchEnds hpc | batchEnds hpc =>
    simp [InLoop, stepsBefore, ran, reported, hpc, State.enterLoop] <;> omega
  | pollReturns _ hpc | dispatchWakeup _ hpc | dispatchChannel _ _ hpc | callbackReturns _ hpc =>
    simp [InLoop, stepsBefore, ran, reported, hpc]
    omega
  | taskReturns rest hpc =>
    simp [InLoop, stepsBefore, ran, reported, hpc]
    omega
  | swapTasks hpc =>
    simp only [waiting, batchRest, hpc, List.nil_append] at hwaits
    simp [InLoop, stepsBefore, ran, reported, hpc, State.swapTasks, hwaits]
    omega
  | taskBegins task rest hpc =>
    have hahead : 1 ≤ k := by simpa [ran, hpc] using hran
    have hposition : k - 1 < rest.length ↔ k < rest.length + 1 := by omega
    simp [InLoop, stepsBefore, ran, reported, hpc, hposition]
    omega
  | wakesAfterPush u | wakesAfterQuit u =>
    rw [stepsBefore_wakeup]
    simp [InLoop, ran]
  | queueInLoop | runsQueued | skipsWakeup | runsInline | inlineReturns | quit | quitsInLoop
  | updateChannel =>
    simp only [InLoop, ran, Bool.false_eq_true, if_false, Nat.zero_add]
    exact Nat.le_add_right _ _

/-- A task that waits at the position `k` is the one that begins after `k` others. -/
theorem begins_at {loop : Thread} {k : Nat} {s t : State} {acts : List Action} {task : Task}
    (hwaits : (waiting s)[k]? = some task) (hrun : Runs.exec (step loop) s acts = some t)
    (hbegun : k < (Flow.emitted (step loop) ran s acts).length) :
    (Flow.emitted (step loop) ran s acts)[k]? = some task := by
  have hk := (List.getElem?_eq_some_iff.mp hwaits).1
  have hflow := Flow.conserved_exec (conserves_step loop) hrun
  calc (Flow.emitted (step loop) ran s acts)[k]?
      = (Flow.emitted (step loop) ran s acts ++ waiting t)[k]? :=
        (List.getElem?_append_left hbegun).symm
    _ = (waiting s ++ Flow.emitted (step loop) queued s acts)[k]? := by rw [hflow]
    _ = (waiting s)[k]? := List.getElem?_append_left hk
    _ = some task := hwaits

/-- A waiting task begins in its turn, and until then the loop thread polls at most once more, and
makes at most the steps of what was before the task and of the channels that this poll reports:
what other threads queue and call meanwhile adds nothing. -/
theorem begins_after_one_poll {loop : Thread} {k : Nat} {s t : State} {acts : List Action}
    {task : Task} (hwaits : (waiting s)[k]? = some task)
    (hrun : Runs.exec (step loop) s acts = some t) :
    (Flow.emitted (step loop) ran s acts)[k]? = some task ∨
      acts.countP IsPoll ≤ pollsBefore k s ∧ pollsBefore k s ≤ 1 ∧
        acts.countP InLoop ≤ stepsBefore k s + Potential.total (step loop) reported s acts := by
  rcases Nat.lt_or_ge k (Flow.emitted (step loop) ran s acts).length with hbegun | hbefore
  · exact .inl (begins_at hwaits hrun hbegun)
  · have hk := (List.getElem?_eq_some_iff.mp hwaits).1
    have hpolls := Potential.total_le_countdown (fun k s => k < (waiting s).length) pollsBefore
      (waits_step loop) (pollsBefore_step loop) hk hrun hbefore
    have hsteps := Potential.total_le_countdown (fun k s => k < (waiting s).length) stepsBefore
      (waits_step loop) (stepsBefore_step loop) hk hrun hbefore
    rw [Potential.total_count hrun] at hpolls hsteps
    rw [Potential.total_zero, Nat.add_zero] at hpolls
    exact .inr ⟨by omega, pollsBefore_le k s, by omega⟩

/-- Task 9 is in the queue behind task 8, and task 6 is left of the batch that runs. -/
def behindTwo : State := { construct 0 with pc := .task [6], pendingTasks := [8, 9] }

/-- The loop thread goes round until task 9 is next, while thread 1 queues task 10. -/
def nextRound : List Action :=
  [.taskReturns, .nextTask, .taskReturns, .nextTask, .testQuit, .pollReturns [.channel 3],
    .dispatchNext, .queueInLoop 1 10, .callbackReturns, .dispatchNext, .swapTasks, .nextTask,
    .taskReturns]

theorem begins_after_one_poll_behindTwo :
    ∃ s, Runs.exec (step 0) behindTwo nextRound = some s ∧ nextRound.countP IsPoll = 1 ∧
      nextRound.countP InLoop ≤
        stepsBefore 2 behindTwo + Potential.total (step 0) reported behindTwo nextRound := by
  have hrun : Runs.exec (step 0) behindTwo nextRound = some _ := rfl
  have hwaits : (waiting behindTwo)[2]? = some 9 := rfl
  refine ⟨_, hrun, rfl, ?_⟩
  cases begins_after_one_poll hwaits hrun with
  | inl hbegun => cases hbegun
  | inr hbounds => exact hbounds.2.2

end TaskLatency
