import OrderEngine.Library.Runs
import Mathlib.Algebra.Order.Ring.Nat
import Mathlib.Logic.Function.Basic

/-!
# Reactor: the event loop and its task queue

The loop thread runs `loop()` from one program point to the next, while any
number of threads call `queueInLoop`, `runInLoop` and `quit`. A call is split
where another thread can come between its steps. Callbacks and tasks are user
code: the loop thread may make any of the calls there.
-/
namespace Reactor

/-- A `std::thread::id`. -/
abbrev Thread := Nat

abbrev Task := Nat

/-- A channel that the poller found active. -/
inductive Active where
  | wakeupChannel
  | channel (id : Nat)
  deriving DecidableEq, Repr

/-- Where the loop thread stands in `loop()`. -/
inductive Pc where
  | outside
  | test
  | poll
  | dispatch (active : List Active)
  | callback (active : List Active)
  | swap
  | batch (tasks : List Task)
  | task (tasks : List Task)
  | returned
  deriving DecidableEq, Repr

/-- Whether the loop thread is in code that is not the reactor's own. -/
def Pc.userCode : Pc → Bool
  | .outside => true
  | .callback _ => true
  | .task _ => true
  | .returned => true
  | _ => false

/-- Whether the loop thread is in a callback or a task of the reactor. -/
def Pc.inHandler : Pc → Bool
  | .callback _ => true
  | .task _ => true
  | _ => false

/-- A call whose first step is done: `queueInLoop` after its push, `quit` after
its store. -/
inductive Call where
  | pushed
  | quitSet
  deriving DecidableEq, Repr

structure State where
  threadId : Thread
  quit : Bool
  callingPendingTasks : Bool
  pendingTasks : List Task
  eventCount : Nat
  pc : Pc
  call : Thread → Option Call
  inlineTasks : Thread → Nat
  executed : List (Task × Thread)
  asserted : List Bool

/-- `Reactor::Reactor()`, called on the thread `constructor`. Its own call of
`enableReading` evaluates the assertion of `updateChannel`. -/
def construct (constructor : Thread) : State where
  threadId := constructor
  quit := false
  callingPendingTasks := false
  pendingTasks := []
  eventCount := 0
  pc := .outside
  call _ := none
  inlineTasks _ := 0
  executed := []
  asserted := [true]

namespace State

/-- The value of `isInLoopThread()` on the thread `t`. -/
def isInLoopThread (s : State) (t : Thread) : Bool := s.threadId = t

/-- `write` of 1 to the eventfd, which fails when the counter is at its greatest value. -/
def wakeup (s : State) : State :=
  if s.eventCount < 2 ^ 64 - 2 then { s with eventCount := s.eventCount + 1 } else s

/-- `read` of the eventfd. -/
def handleWakeup (s : State) : State := { s with eventCount := 0 }

/-- The first step of `queueInLoop`: the push under the lock. -/
def pushTask (s : State) (t : Thread) (task : Task) : State :=
  { s with
    pendingTasks := s.pendingTasks ++ [task]
    call := Function.update s.call t (some .pushed) }

def endCall (s : State) (t : Thread) : State := { s with call := Function.update s.call t none }

/-- The second step: `if (!isInLoopThread() || calling_pending_tasks_) wakeup()`. -/
def wakeupAfterPush (s : State) (t : Thread) : State :=
  if s.isInLoopThread t = false ∨ s.callingPendingTasks = true then (s.endCall t).wakeup
  else s.endCall t

/-- `task()`, called directly. -/
def runInline (s : State) (t : Thread) (task : Task) : State :=
  { s with
    inlineTasks := Function.update s.inlineTasks t (s.inlineTasks t + 1)
    executed := s.executed ++ [(task, t)] }

def endInline (s : State) (t : Thread) : State :=
  { s with inlineTasks := Function.update s.inlineTasks t (s.inlineTasks t - 1) }

def runInLoop (s : State) (t : Thread) (task : Task) : State :=
  if s.isInLoopThread t then s.runInline t task else s.pushTask t task

/-- `quit_ = true`. -/
def setQuit (s : State) (t : Thread) : State :=
  { s with quit := true, call := Function.update s.call t (some .quitSet) }

/-- `if (!isInLoopThread()) wakeup()`. -/
def wakeupAfterQuit (s : State) (t : Thread) : State :=
  if s.isInLoopThread t = false then (s.endCall t).wakeup else s.endCall t

/-- `assert(isInLoopThread())`, evaluated on the thread `t`. -/
def assertInLoopThread (s : State) (t : Thread) : State :=
  { s with asserted := s.asserted ++ [s.isInLoopThread t] }

/-- The two assertions at the head of `loop()`. -/
def enterLoop (s : State) (loop : Thread) : State :=
  { s with pc := .test, asserted := s.asserted ++ [!s.quit, s.isInLoopThread loop] }

/-- `while (!quit_)`. -/
def testQuit (s : State) : State :=
  if s.quit then { s with pc := .returned } else { s with pc := .poll }

/-- The next active channel, or the start of `doPendingTasks` after the last one. -/
def dispatchNext (s : State) : List Active → State
  | [] => { s with pc := .swap, callingPendingTasks := true }
  | .wakeupChannel :: rest => { s.handleWakeup with pc := .dispatch rest }
  | .channel _ :: rest => { s with pc := .callback rest }

/-- `tasks.swap(pending_tasks_)`. -/
def swapTasks (s : State) : State := { s with pc := .batch s.pendingTasks, pendingTasks := [] }

/-- The next task of the batch, or the end of `doPendingTasks`. -/
def nextTask (s : State) (loop : Thread) : List Task → State
  | [] => { s with pc := .test, callingPendingTasks := false }
  | task :: rest => { s with pc := .task rest, executed := s.executed ++ [(task, loop)] }

/-- A thread may begin a call when it is in none, the loop thread only in user code. -/
def MayCall (s : State) (loop t : Thread) : Prop :=
  s.call t = none ∧ (t = loop → s.pc.userCode = true)

instance (s : State) (loop t : Thread) : Decidable (s.MayCall loop t) :=
  inferInstanceAs (Decidable (_ ∧ _))

/-- The thread runs code that uses the reactor's channels: a callback or a task of
the reactor, or what its constructing thread sets up before the loop runs. -/
def MayUseChannels (s : State) (loop t : Thread) : Prop :=
  t = loop ∧ s.pc.inHandler = true ∨ 0 < s.inlineTasks t ∨ s.pc = .outside ∧ t = s.threadId

instance (s : State) (loop t : Thread) : Decidable (s.MayUseChannels loop t) :=
  inferInstanceAs (Decidable (_ ∨ _))

end State

inductive Action where
  | enterLoop
  | testQuit
  | pollReturns (active : List Active)
  | dispatchNext
  | callbackReturns
  | swapTasks
  | nextTask
  | taskReturns
  | queueInLoop (t : Thread) (task : Task)
  | wakeupAfterPush (t : Thread)
  | runInLoop (t : Thread) (task : Task)
  | inlineReturns (t : Thread)
  | quit (t : Thread)
  | wakeupAfterQuit (t : Thread)
  | updateChannel (t : Thread)
  deriving DecidableEq, Repr

/-- One step of the reactor whose `loop()` is run by the thread `loop`. -/
def step (loop : Thread) (s : State) : Action → Option State
  | .enterLoop =>
    Runs.guarded (s.pc = .outside ∧ s.call loop = none ∧ s.inlineTasks loop = 0) (s.enterLoop loop)
  | .testQuit => Runs.guarded (s.pc = .test) s.testQuit
  | .pollReturns active =>
    Runs.guarded (s.pc = .poll ∧ (.wakeupChannel ∈ active → 0 < s.eventCount))
      { s with pc := .dispatch active }
  | .dispatchNext =>
    match s.pc with
    | .dispatch active => some (s.dispatchNext active)
    | _ => none
  | .callbackReturns =>
    match s.pc with
    | .callback active =>
      Runs.guarded (s.call loop = none ∧ s.inlineTasks loop = 0) { s with pc := .dispatch active }
    | _ => none
  | .swapTasks => Runs.guarded (s.pc = .swap) s.swapTasks
  | .nextTask =>
    match s.pc with
    | .batch tasks => some (s.nextTask loop tasks)
    | _ => none
  | .taskReturns =>
    match s.pc with
    | .task tasks =>
      Runs.guarded (s.call loop = none ∧ s.inlineTasks loop = 0) { s with pc := .batch tasks }
    | _ => none
  | .queueInLoop t task => Runs.guarded (s.MayCall loop t) (s.pushTask t task)
  | .wakeupAfterPush t => Runs.guarded (s.call t = some .pushed) (s.wakeupAfterPush t)
  | .runInLoop t task => Runs.guarded (s.MayCall loop t) (s.runInLoop t task)
  | .inlineReturns t =>
    Runs.guarded (s.MayCall loop t ∧ 0 < s.inlineTasks t) (s.endInline t)
  | .quit t => Runs.guarded (s.MayCall loop t) (s.setQuit t)
  | .wakeupAfterQuit t => Runs.guarded (s.call t = some .quitSet) (s.wakeupAfterQuit t)
  | .updateChannel t =>
    Runs.guarded (s.MayCall loop t ∧ s.MayUseChannels loop t) (s.assertInLoopThread t)

/-- What a step can do, one case for each outcome. -/
inductive Outcome (loop : Thread) (s : State) : Action → State → Prop where
  | enterLoop (hpc : s.pc = .outside) (hcall : s.call loop = none)
      (hinline : s.inlineTasks loop = 0) : Outcome loop s .enterLoop (s.enterLoop loop)
  | leaves (hpc : s.pc = .test) (hquit : s.quit = true) :
      Outcome loop s .testQuit { s with pc := .returned }
  | polls (hpc : s.pc = .test) (hquit : s.quit = false) :
      Outcome loop s .testQuit { s with pc := .poll }
  | pollReturns (active : List Active) (hpc : s.pc = .poll)
      (hready : .wakeupChannel ∈ active → 0 < s.eventCount) :
      Outcome loop s (.pollReturns active) { s with pc := .dispatch active }
  | dispatchEnds (hpc : s.pc = .dispatch []) :
      Outcome loop s .dispatchNext { s with pc := .swap, callingPendingTasks := true }
  | dispatchWakeup (rest : List Active) (hpc : s.pc = .dispatch (.wakeupChannel :: rest)) :
      Outcome loop s .dispatchNext { s.handleWakeup with pc := .dispatch rest }
  | dispatchChannel (id : Nat) (rest : List Active) (hpc : s.pc = .dispatch (.channel id :: rest)) :
      Outcome loop s .dispatchNext { s with pc := .callback rest }
  | callbackReturns (rest : List Active) (hpc : s.pc = .callback rest)
      (hcall : s.call loop = none) (hinline : s.inlineTasks loop = 0) :
      Outcome loop s .callbackReturns { s with pc := .dispatch rest }
  | swapTasks (hpc : s.pc = .swap) : Outcome loop s .swapTasks s.swapTasks
  | batchEnds (hpc : s.pc = .batch []) :
      Outcome loop s .nextTask { s with pc := .test, callingPendingTasks := false }
  | taskBegins (task : Task) (rest : List Task) (hpc : s.pc = .batch (task :: rest)) :
      Outcome loop s .nextTask
        { s with pc := .task rest, executed := s.executed ++ [(task, loop)] }
  | taskReturns (rest : List Task) (hpc : s.pc = .task rest) (hcall : s.call loop = none)
      (hinline : s.inlineTasks loop = 0) :
      Outcome loop s .taskReturns { s with pc := .batch rest }
  | queueInLoop (t : Thread) (task : Task) (hmay : s.MayCall loop t) :
      Outcome loop s (.queueInLoop t task) (s.pushTask t task)
  | wakesAfterPush (t : Thread) (hcall : s.call t = some .pushed)
      (hwake : s.isInLoopThread t = false ∨ s.callingPendingTasks = true) :
      Outcome loop s (.wakeupAfterPush t) (s.endCall t).wakeup
  | skipsWakeup (t : Thread) (hcall : s.call t = some .pushed)
      (hloop : s.isInLoopThread t = true) (hcalling : s.callingPendingTasks = false) :
      Outcome loop s (.wakeupAfterPush t) (s.endCall t)
  | runsInline (t : Thread) (task : Task) (hmay : s.MayCall loop t)
      (hloop : s.isInLoopThread t = true) :
      Outcome loop s (.runInLoop t task) (s.runInline t task)
  | runsQueued (t : Thread) (task : Task) (hmay : s.MayCall loop t)
      (hloop : s.isInLoopThread t = false) :
      Outcome loop s (.runInLoop t task) (s.pushTask t task)
  | inlineReturns (t : Thread) (hmay : s.MayCall loop t) (hinline : 0 < s.inlineTasks t) :
      Outcome loop s (.inlineReturns t) (s.endInline t)
  | quit (t : Thread) (hmay : s.MayCall loop t) : Outcome loop s (.quit t) (s.setQuit t)
  | wakesAfterQuit (t : Thread) (hcall : s.call t = some .quitSet)
      (hloop : s.isInLoopThread t = false) :
      Outcome loop s (.wakeupAfterQuit t) (s.endCall t).wakeup
  | quitsInLoop (t : Thread) (hcall : s.call t = some .quitSet)
      (hloop : s.isInLoopThread t = true) : Outcome loop s (.wakeupAfterQuit t) (s.endCall t)
  | updateChannel (t : Thread) (hmay : s.MayCall loop t) (huse : s.MayUseChannels loop t) :
      Outcome loop s (.updateChannel t) (s.assertInLoopThread t)

theorem outcome_of_step {loop : Thread} {s s' : State} {a : Action}
    (h : step loop s a = some s') : Outcome loop s a s' := by
  cases a with
  | enterLoop =>
    obtain ⟨⟨hpc, hcall, hinline⟩, rfl⟩ := Runs.guarded_eq_some.mp h
    exact .enterLoop hpc hcall hinline
  | testQuit =>
    obtain ⟨hpc, rfl⟩ := Runs.guarded_eq_some.mp h
    unfold State.testQuit
    split
    · rename_i hquit
      exact .leaves hpc hquit
    · rename_i hquit
      exact .polls hpc (by simpa using hquit)
  | pollReturns active =>
    obtain ⟨⟨hpc, hready⟩, rfl⟩ := Runs.guarded_eq_some.mp h
    exact .pollReturns active hpc hready
  | dispatchNext =>
    simp only [step] at h
    split at h
    · rename_i active hpc
      cases h
      match active with
      | [] => exact .dispatchEnds hpc
      | .wakeupChannel :: rest => exact .dispatchWakeup rest hpc
      | .channel id :: rest => exact .dispatchChannel id rest hpc
    · cases h
  | callbackReturns =>
    simp only [step] at h
    split at h
    · rename_i rest hpc
      obtain ⟨⟨hcall, hinline⟩, rfl⟩ := Runs.guarded_eq_some.mp h
      exact .callbackReturns rest hpc hcall hinline
    · cases h
  | swapTasks =>
    obtain ⟨hpc, rfl⟩ := Runs.guarded_eq_some.mp h
    exact .swapTasks hpc
  | nextTask =>
    simp only [step] at h
    split at h
    · rename_i tasks hpc
      cases h
      match tasks with
      | [] => exact .batchEnds hpc
      | task :: rest => exact .taskBegins task rest hpc
    · cases h
  | taskReturns =>
    simp only [step] at h
    split at h
    · rename_i rest hpc
      obtain ⟨⟨hcall, hinline⟩, rfl⟩ := Runs.guarded_eq_some.mp h
      exact .taskReturns rest hpc hcall hinline
    · cases h
  | queueInLoop t task =>
    obtain ⟨hmay, rfl⟩ := Runs.guarded_eq_some.mp h
    exact .queueInLoop t task hmay
  | wakeupAfterPush t =>
    obtain ⟨hcall, rfl⟩ := Runs.guarded_eq_some.mp h
    unfold State.wakeupAfterPush
    split
    · rename_i hwake
      exact .wakesAfterPush t hcall hwake
    · rename_i hskip
      simp only [not_or, Bool.not_eq_false, Bool.not_eq_true] at hskip
      exact .skipsWakeup t hcall hskip.1 hskip.2
  | runInLoop t task =>
    obtain ⟨hmay, rfl⟩ := Runs.guarded_eq_some.mp h
    unfold State.runInLoop
    split
    · rename_i hloop
      exact .runsInline t task hmay hloop
    · rename_i hloop
      exact .runsQueued t task hmay (by simpa using hloop)
  | inlineReturns t =>
    obtain ⟨⟨hmay, hinline⟩, rfl⟩ := Runs.guarded_eq_some.mp h
    exact .inlineReturns t hmay hinline
  | quit t =>
    obtain ⟨hmay, rfl⟩ := Runs.guarded_eq_some.mp h
    exact .quit t hmay
  | wakeupAfterQuit t =>
    obtain ⟨hcall, rfl⟩ := Runs.guarded_eq_some.mp h
    unfold State.wakeupAfterQuit
    split
    · rename_i hloop
      exact .wakesAfterQuit t hcall hloop
    · rename_i hloop
      exact .quitsInLoop t hcall (by simpa using hloop)
  | updateChannel t =>
    obtain ⟨⟨hmay, huse⟩, rfl⟩ := Runs.guarded_eq_some.mp h
    exact .updateChannel t hmay huse

/-- A wakeup changes the counter only, and leaves it positive. -/
theorem wakeup_eq (s : State) : ∃ n, 0 < n ∧ s.wakeup = { s with eventCount := n } := by
  unfold State.wakeup
  split
  · exact ⟨s.eventCount + 1, by omega, rfl⟩
  · exact ⟨s.eventCount, by omega, rfl⟩

end Reactor
