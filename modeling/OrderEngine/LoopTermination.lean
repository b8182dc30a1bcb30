import OrderEngine.GracefulQuit
import OrderEngine.Library.Potential
import OrderEngine.ReactorWakeup

/-!
# The loop ends after `quit`

Once `quit_` is set, the loop thread polls at most once more and swaps the queue at most once
more before it tests the flag. A `quit` from another thread wakes it for that.
-/
namespace LoopTermination

open Reactor ReactorQueue ReactorWakeup GracefulQuit

/-- A step that the loop thread makes inside `loop()`. -/
def InLoop : Action → Bool
  | .testQuit => true
  | .pollReturns _ => true
  | .dispatchNext => true
  | .callbackReturns => true
  | .swapTasks => true
  | .nextTask => true
  | .taskReturns => true
  | _ => false

/-- The steps that a loop that is to quit can still make: a task takes two, and a channel at
most two. A poll may add some for the channels that it reports. -/
def stepsLeft (s : State) : Nat :=
  match s.pc with
  | .outside => 1
  | .test => 1
  | .poll => 2 * s.pendingTasks.length + 5
  | .dispatch active => 2 * active.length + (2 * s.pendingTasks.length + 4)
  | .callback active => 2 * active.length + (2 * s.pendingTasks.length + 5)
  | .swap => 2 * s.pendingTasks.length + 3
  | .batch tasks => 2 * tasks.length + 2
  | .task tasks => 2 * tasks.length + 3
  | .returned => 0

instance (pc : Pc) : Decidable (Early pc) := by
  cases pc <;> unfold Early <;> infer_instance

/-- The steps of the loop that a step adds: those for the channels that a poll reports, and for
a task that is pushed before the swap. -/
def added (s : State) : Action → Nat
  | .pollReturns active => 2 * active.length
  | a => if Early s.pc then 2 * (queued s a).length else 0

theorem quit_step (loop : Thread) (s : State) (a : Action) (s' : State) (hquit : s.quit = true)
    (h : step loop s a = some s') : s'.quit = true := by
  cases outcome_of_step h with
  | wakesAfterPush t | wakesAfterQuit t =>
    obtain ⟨n, _, hwake⟩ := wakeup_eq (s.endCall t)
    rw [hwake]
    exact hquit
  | quit => rfl
  | _ => exact hquit

theorem stepsLeft_wakeup (s : State) (t : Thread) :
    stepsLeft (s.endCall t).wakeup = stepsLeft s := by
  obtain ⟨n, _, hwake⟩ := wakeup_eq (s.endCall t)
  rw [hwake]
  rfl

/-- A push adds two steps before the swap, and none after it. -/
theorem stepsLeft_pushTask (s : State) (t : Thread) (task : Task) :
    stepsLeft (s.pushTask t task) = stepsLeft s + 2 * (if Early s.pc then 1 else 0) := by
  cases hpc : s.pc <;> simp [stepsLeft, State.pushTask, hpc, Early] <;> omega

theorem stepsLeft_step (loop : Thread) (s : State) (a : Action) (s' : State)
    (hquit : s.quit = true) (h : step loop s a = some s') :
    (if InLoop a then 1 else 0) + stepsLeft s' ≤ stepsLeft s + added s a := by
  cases outcome_of_step h with
  | polls hpc hrunning =>
    rw [hquit] at hrunning
    cases hrunning
  | enterLoop hpc | leaves hpc | batchEnds hpc =>
    simp [InLoop, stepsLeft, hpc, State.enterLoop]
  | dispatchEnds hpc | swapTasks hpc =>
    simp [InLoop, stepsLeft, hpc, State.swapTasks]
    omega
  | pollReturns _ hpc =>
    simp [InLoop, stepsLeft, added, hpc]
    omega
  | dispatchWakeup _ hpc | dispatchChannel _ _ hpc | callbackReturns _ hpc | taskBegins _ _ hpc
  | taskReturns _ hpc =>
    simp [InLoop, stepsLeft, hpc, State.handleWakeup]
    omega
  | queueInLoop t task =>
    rw [stepsLeft_pushTask]
    simp [InLoop, added, queued]
  | runsQueued t task _ hloop =>
    rw [stepsLeft_pushTask]
    simp [InLoop, added, queued, hloop]
  | wakesAfterPush t | wakesAfterQuit t =>
    rw [stepsLeft_wakeup]
    simp [InLoop]
  | skipsWakeup | runsInline | inlineReturns | quit | quitsInLoop | updateChannel =>
    simp only [InLoop, Bool.false_eq_true, if_false, Nat.zero_add]
    exact Nat.le_add_right _ _

/-- The polls that the loop can still make. -/
def pollsLeft (s : State) : Nat := if s.pc = .poll then 1 else 0

def IsPoll : Action → Bool
  | .pollReturns _ => true
  | _ => false

theorem pollsLeft_step (loop : Thread) (s : State) (a : Action) (s' : State)
    (hquit : s.quit = true) (h : step loop s a = some s') :
    (if IsPoll a then 1 else 0) + pollsLeft s' ≤ pollsLeft s + 0 := by
  cases outcome_of_step h with
  | polls hpc hrunning =>
    rw [hquit] at hrunning
    cases hrunning
  | enterLoop hpc | leaves hpc | dispatchEnds hpc | swapTasks hpc | batchEnds hpc
  | pollReturns _ hpc | dispatchWakeup _ hpc | dispatchChannel _ _ hpc | callbackReturns _ hpc
  | taskBegins _ _ hpc | taskReturns _ hpc =>
    simp [IsPoll, pollsLeft, hpc, State.enterLoop, State.swapTasks]
  | wakesAfterPush t | wakesAfterQuit t =>
    obtain ⟨n, _, hwake⟩ := wakeup_eq (s.endCall t)
    rw [hwake]
    simp only [IsPoll, Bool.false_eq_true, if_false, Nat.zero_add]
    exact Nat.le_refl _
  | queueInLoop | runsQueued | skipsWakeup | runsInline | inlineReturns | quit | quitsInLoop
  | updateChannel =>
    simp only [IsPoll, Bool.false_eq_true, if_false, Nat.zero_add]
    exact Nat.le_refl _

/-- From the moment at which `quit_` is set, the loop thread polls at most once more, and makes
at most the steps that the tasks and channels before it take, whatever other threads do: a task
pushed after the last swap adds nothing. -/
theorem quit_ends_loop {loop : Thread} {s s' : State} {acts : List Action}
    (hquit : s.quit = true) (hrun : Runs.exec (step loop) s acts = some s') :
    acts.countP IsPoll + pollsLeft s' ≤ pollsLeft s ∧
      acts.countP InLoop + stepsLeft s' ≤
        stepsLeft s + Potential.total (step loop) added s acts := by
  have hal : Runs.Along (step loop) (fun _ _ => True) s acts :=
    Runs.along_of_forall (fun _ _ => trivial)
  have hpolls := Potential.total_le (fun s => s.quit = true) _ pollsLeft
    (fun s a t hs _ h => quit_step loop s a t hs h)
    (fun s a t hs _ h => pollsLeft_step loop s a t hs h) hquit hal hrun
  have hsteps := Potential.total_le (fun s => s.quit = true) _ stepsLeft
    (fun s a t hs _ h => quit_step loop s a t hs h)
    (fun s a t hs _ h => stepsLeft_step loop s a t hs h) hquit hal hrun
  rw [Potential.total_count hrun] at hpolls hsteps
  rw [Potential.total_zero, Nat.add_zero] at hpolls
  exact ⟨hpolls, hsteps⟩

/-- The loop thread sleeps while a task is queued, and thread 1 tells it to quit. -/
def quitInPoll : State :=
  ((construct 0).pushTask 1 7).setQuit 1 |> fun s => { s with pc := .poll }

def lastRound : List Action :=
  [.wakeupAfterQuit 1, .pollReturns [.wakeupChannel, .channel 4], .dispatchNext, .dispatchNext,
    .callbackReturns, .dispatchNext, .swapTasks, .queueInLoop 2 8, .nextTask, .taskReturns,
    .nextTask, .testQuit]

theorem quit_ends_loop_lastRound :
    ∃ s, Runs.exec (step 0) quitInPoll lastRound = some s ∧ s.pc = .returned ∧
      lastRound.countP IsPoll + pollsLeft s ≤ pollsLeft quitInPoll ∧
      lastRound.countP InLoop + stepsLeft s ≤
        stepsLeft quitInPoll + Potential.total (step 0) added quitInPoll lastRound := by
  have hrun : Runs.exec (step 0) quitInPoll lastRound = some _ := rfl
  exact ⟨_, hrun, rfl, quit_ends_loop rfl hrun⟩

/-- A loop that is to quit polls only while the eventfd is readable, or the caller of `quit` has
still to write to it. -/
def Roused (s : State) : Prop :=
  s.quit = true → s.pc = .poll → 0 < s.eventCount ∨ ∃ t, s.call t = some .quitSet

/-- A change of the call of a thread that is not in `quit` leaves the calls of the others. -/
theorem roused_update {s : State} (h : Roused s) {t : Thread} (hcall : s.call t ≠ some .quitSet)
    (call : Option Call) : Roused { s with call := Function.update s.call t call } := by
  intro hquit hpoll
  cases h hquit hpoll with
  | inl hcount => exact .inl hcount
  | inr hcaller =>
    obtain ⟨u, hu⟩ := hcaller
    have hne : u ≠ t := by
      rintro rfl
      exact hcall hu
    exact .inr ⟨u, by simpa [Function.update_of_ne hne] using hu⟩

theorem roused_step (loop : Thread) (s : State) (a : Action) (s' : State) (hwakes : Wakes loop s)
    (h : Roused s) (hstep : step loop s a = some s') : Roused s' := by
  cases outcome_of_step hstep with
  | polls hpc hrunning =>
    intro hquit
    change s.quit = true at hquit
    rw [hrunning] at hquit
    cases hquit
  | enterLoop | leaves | pollReturns | dispatchEnds | dispatchWakeup | dispatchChannel
  | callbackReturns | swapTasks | batchEnds | taskBegins | taskReturns =>
    intro _ hpoll
    cases hpoll
  | queueInLoop t task hmay | runsQueued t task hmay =>
    exact roused_update h (by rw [hmay.1]; simp) _
  | wakesAfterPush t | wakesAfterQuit t =>
    obtain ⟨n, hpos, hwake⟩ := wakeup_eq (s.endCall t)
    rw [hwake]
    intro _ _
    exact .inl hpos
  | skipsWakeup t hcall => exact roused_update h (by rw [hcall]; simp) _
  | runsInline | inlineReturns | updateChannel => exact h
  | quit t =>
    intro _ _
    exact .inr ⟨t, by simp [State.setQuit]⟩
  | quitsInLoop t hcall hloop =>
    intro _ hpoll
    have ht : t = loop := by
      rw [← hwakes.threadId]
      simpa [State.isInLoopThread, eq_comm] using hloop
    have hidle : s.call loop = none := by
      apply hwakes.idle
      change s.pc = .poll at hpoll
      rw [hpoll]
      rfl
    rw [ht, hidle] at hcall
    cases hcall

/-- Where the thread that has constructed the reactor enters `loop` with an empty queue, no `quit`
is lost: whenever the flag is set and the loop thread is in `poll`, the eventfd is readable, or
another thread has set the flag and not written to the eventfd yet. -/
theorem quit_not_lost {loop : Thread} {s : State}
    (hs : Runs.Reachable (Entered loop) (step loop) s) (hquit : s.quit = true)
    (hpoll : s.pc = .poll) : 0 < s.eventCount ∨ ∃ t, t ≠ loop ∧ s.call t = some .quitSet := by
  have hinv : Wakes loop s ∧ Roused s := by
    refine Runs.invariant_reachable (fun s => Wakes loop s ∧ Roused s) ?_ ?_ hs
    · intro s hentered
      refine ⟨wakes_entered hentered, ?_⟩
      intro _ hpoll
      rw [hentered.pc] at hpoll
      cases hpoll
    · intro s a t h hstep
      exact ⟨wakes_step loop s a t h.1 hstep, roused_step loop s a t h.1 h.2 hstep⟩
  obtain ⟨hwakes, hroused⟩ := hinv
  cases hroused hquit hpoll with
  | inl hcount => exact .inl hcount
  | inr hcaller =>
    obtain ⟨t, ht⟩ := hcaller
    refine .inr ⟨t, ?_, ht⟩
    rintro rfl
    rw [hwakes.idle (by rw [hpoll]; rfl)] at ht
    cases ht

/-- Thread 1 has set the flag while the loop thread sleeps in `poll`. -/
theorem quit_not_lost_sleeping : ∃ s,
    Runs.exec (step 0) running [.testQuit, .quit 1] = some s ∧ s.pc = .poll ∧
      (0 < s.eventCount ∨ ∃ t, t ≠ 0 ∧ s.call t = some .quitSet) := by
  have hrun : Runs.exec (step 0) running [.testQuit, .quit 1] = some _ := rfl
  have hentered : Entered 0 running := ⟨rfl, rfl, rfl, rfl, rfl⟩
  exact ⟨_, hrun, rfl, quit_not_lost ⟨running, _, hentered, hrun⟩ rfl rfl⟩

end LoopTermination
