import OrderEngine.Reactor

/-!
# Loop-thread confinement

`thread_id_` is the thread that constructs the reactor, and `isInLoopThread()`
compares with it. So the reactor confines its tasks and its channels to the
thread that runs `loop()` exactly when that thread is the one that constructed it.
-/
namespace ReactorThreads

open Reactor

/-- `isInLoopThread()` is true on the thread that runs `loop()` and nowhere else,
only that thread has executed tasks, and no assertion has failed, `quit()` apart. -/
structure Confined (loop : Thread) (s : State) : Prop where
  exact : ∀ t, s.isInLoopThread t = true ↔ t = loop
  executed : ∀ p ∈ s.executed, p.2 = loop
  asserted : s.quit = false → ∀ value ∈ s.asserted, value = true

/-- Inline tasks and the assertions of a reactor that is run where it was constructed. -/
structure AtHome (loop : Thread) (s : State) : Prop where
  threadId : s.threadId = loop
  inline : ∀ t, 0 < s.inlineTasks t → t = loop
  executed : ∀ p ∈ s.executed, p.2 = loop
  asserted : s.quit = false → ∀ value ∈ s.asserted, value = true

theorem isInLoopThread_iff {loop : Thread} {s : State} (h : s.threadId = loop) (t : Thread) :
    s.isInLoopThread t = true ↔ t = loop := by
  simp [State.isInLoopThread, h, eq_comm]

theorem confined_of_atHome {loop : Thread} {s : State} (h : AtHome loop s) : Confined loop s :=
  ⟨isInLoopThread_iff h.threadId, h.executed, h.asserted⟩

theorem atHome_construct (loop : Thread) : AtHome loop (construct loop) := by
  refine ⟨rfl, ?_, ?_, ?_⟩ <;> simp [construct]

/-- What the constructing thread, the tasks and the assertions depend on. -/
theorem atHome_of_eq {loop : Thread} {s s' : State} (h : AtHome loop s)
    (hthread : s'.threadId = s.threadId) (hinline : s'.inlineTasks = s.inlineTasks)
    (hexecuted : s'.executed = s.executed) (hasserted : s'.asserted = s.asserted)
    (hquit : s'.quit = false → s.quit = false) : AtHome loop s' := by
  refine ⟨by rw [hthread, h.threadId], ?_, ?_, ?_⟩
  · rw [hinline]
    exact h.inline
  · rw [hexecuted]
    exact h.executed
  · rw [hasserted]
    intro hq
    exact h.asserted (hquit hq)

theorem atHome_run {loop : Thread} {s : State} (h : AtHome loop s) (task : Task) (pc : Pc) :
    AtHome loop { s with pc := pc, executed := s.executed ++ [(task, loop)] } := by
  refine ⟨h.threadId, h.inline, ?_, h.asserted⟩
  intro p hp
  rcases List.mem_append.mp hp with hold | hnew
  · exact h.executed p hold
  · rw [List.mem_singleton.mp hnew]

theorem atHome_runInline {loop : Thread} {s : State} (h : AtHome loop s) (task : Task) :
    AtHome loop (s.runInline loop task) := by
  refine ⟨h.threadId, ?_, (atHome_run h task s.pc).executed, h.asserted⟩
  intro t ht
  by_cases heq : t = loop
  · exact heq
  · simp only [State.runInline, Function.update_of_ne heq] at ht
    exact h.inline t ht

theorem atHome_endInline {loop : Thread} {s : State} (h : AtHome loop s) (t : Thread) :
    AtHome loop (s.endInline t) := by
  refine ⟨h.threadId, ?_, h.executed, h.asserted⟩
  intro u hu
  by_cases heq : u = t
  · rw [heq] at hu ⊢
    simp only [State.endInline, Function.update_self] at hu
    exact h.inline t (by omega)
  · simp only [State.endInline, Function.update_of_ne heq] at hu
    exact h.inline u hu

theorem atHome_assert {loop : Thread} {s : State} (h : AtHome loop s) :
    AtHome loop (s.assertInLoopThread loop) := by
  refine ⟨h.threadId, h.inline, h.executed, ?_⟩
  intro hq value hvalue
  rcases List.mem_append.mp hvalue with hold | hnew
  · exact h.asserted hq value hold
  · rw [List.mem_singleton.mp hnew]
    exact (isInLoopThread_iff h.threadId loop).mpr rfl

theorem atHome_enterLoop {loop : Thread} {s : State} (h : AtHome loop s) :
    AtHome loop (s.enterLoop loop) := by
  refine ⟨h.threadId, h.inline, h.executed, ?_⟩
  intro hq value hvalue
  have hquit : s.quit = false := hq
  rcases List.mem_append.mp hvalue with hold | hnew
  · exact h.asserted hq value hold
  · rw [hquit, (isInLoopThread_iff h.threadId loop).mpr rfl] at hnew
    simpa using hnew

/-- The threads that use the reactor's channels are the loop thread alone. -/
theorem eq_loop_of_mayUseChannels {loop t : Thread} {s : State} (h : AtHome loop s)
    (huse : s.MayUseChannels loop t) : t = loop := by
  rcases huse with ⟨ht, _⟩ | hinline | ⟨_, ht⟩
  · exact ht
  · exact h.inline t hinline
  · rw [ht, h.threadId]

theorem atHome_step (loop : Thread) (s : State) (a : Action) (s' : State) (h : AtHome loop s)
    (hstep : step loop s a = some s') : AtHome loop s' := by
  cases outcome_of_step hstep with
  | enterLoop => exact atHome_enterLoop h
  | leaves | polls | pollReturns | dispatchEnds | dispatchWakeup | dispatchChannel
  | callbackReturns | swapTasks | batchEnds | taskReturns | queueInLoop | runsQueued
  | skipsWakeup | quitsInLoop => exact atHome_of_eq h rfl rfl rfl rfl id
  | wakesAfterPush t | wakesAfterQuit t =>
    obtain ⟨n, _, heq⟩ := wakeup_eq (s.endCall t)
    rw [heq]
    exact atHome_of_eq h rfl rfl rfl rfl id
  | taskBegins task rest => exact atHome_run h task (.task rest)
  | runsInline t task _ hloop =>
    rw [(isInLoopThread_iff h.threadId t).mp hloop]
    exact atHome_runInline h task
  | inlineReturns t => exact atHome_endInline h t
  | quit t =>
    refine atHome_of_eq h rfl rfl rfl rfl ?_
    intro hquit
    cases hquit
  | updateChannel t _ huse =>
    rw [eq_loop_of_mayUseChannels h huse]
    exact atHome_assert h

theorem threadId_const {loop : Thread} {s s' : State} {a : Action} (h : Outcome loop s a s') :
    s'.threadId = s.threadId := by
  cases h with
  | wakesAfterPush t | wakesAfterQuit t =>
    obtain ⟨n, _, heq⟩ := wakeup_eq (s.endCall t)
    rw [heq]
    rfl
  | _ => rfl

/-- An assertion that has failed stays on the record. -/
theorem asserted_kept {loop : Thread} {s s' : State} {a : Action} (h : Outcome loop s a s')
    {value : Bool} (hvalue : value ∈ s.asserted) : value ∈ s'.asserted := by
  cases h with
  | wakesAfterPush t | wakesAfterQuit t =>
    obtain ⟨n, _, heq⟩ := wakeup_eq (s.endCall t)
    rw [heq]
    exact hvalue
  | enterLoop | updateChannel => exact List.mem_append_left _ hvalue
  | _ => exact hvalue

/-- Only `loop()` itself takes the loop thread out of the code before it. -/
theorem enters_or_stays {loop : Thread} {s s' : State} {a : Action} (h : Outcome loop s a s')
    (houtside : s.pc = .outside) : s' = s.enterLoop loop ∨ s'.pc = .outside := by
  cases h with
  | enterLoop => exact .inl rfl
  | leaves hpc | polls hpc | pollReturns _ hpc | dispatchEnds hpc | dispatchWakeup _ hpc
  | dispatchChannel _ _ hpc | callbackReturns _ hpc | swapTasks hpc | batchEnds hpc
  | taskBegins _ _ hpc | taskReturns _ hpc =>
    rw [houtside] at hpc
    cases hpc
  | wakesAfterPush t | wakesAfterQuit t =>
    obtain ⟨n, _, heq⟩ := wakeup_eq (s.endCall t)
    rw [heq]
    exact .inr houtside
  | _ => exact .inr houtside

/-- A loop run by another thread than the constructing one fails the assertion at
its head, in every run. -/
theorem assertion_fails {constructor loop : Thread} (hne : constructor ≠ loop) {s : State}
    (hs : Runs.Reachable (· = construct constructor) (step loop) s) (hpc : s.pc ≠ .outside) :
    false ∈ s.asserted := by
  have hinv : s.threadId = constructor ∧ (s.pc = .outside ∨ false ∈ s.asserted) := by
    refine Runs.invariant_reachable
      (fun s => s.threadId = constructor ∧ (s.pc = .outside ∨ false ∈ s.asserted)) ?_ ?_ hs
    · rintro s₀ rfl
      exact ⟨rfl, .inl rfl⟩
    · rintro s a s' ⟨hthread, hasserted⟩ hstep
      have houtcome := outcome_of_step hstep
      refine ⟨(threadId_const houtcome).trans hthread, ?_⟩
      rcases hasserted with houtside | hfailed
      · rcases enters_or_stays houtcome houtside with rfl | hstays
        · have hfails : s.isInLoopThread loop = false := by
            simp [State.isInLoopThread, hthread, hne]
          exact .inr (by simp [State.enterLoop, hfails])
        · exact .inl hstays
      · exact .inr (asserted_kept houtcome hfailed)
  exact hinv.2.resolve_left hpc

/-- The reactor is confined in every run exactly when the thread that runs its
loop is the thread that constructed it. -/
theorem confined_iff (constructor loop : Thread) :
    (∀ s, Runs.Reachable (· = construct constructor) (step loop) s → Confined loop s) ↔
      constructor = loop := by
  constructor
  · intro h
    have hstart := h (construct constructor) ⟨_, [], rfl, rfl⟩
    exact (hstart.exact constructor).mp (by simp [State.isInLoopThread, construct])
  · rintro rfl s hs
    have hinit : ∀ s₀, s₀ = construct constructor → AtHome constructor s₀ := by
      rintro s₀ rfl
      exact atHome_construct constructor
    exact confined_of_atHome
      (Runs.invariant_reachable (AtHome constructor) hinit (atHome_step constructor) hs)

/-- Thread 0 constructs the reactor and starts thread 1 to run its loop, as
`TcpServer::start` does; a task that thread 0 then hands over runs on thread 0. -/
theorem started_not_confined : ∃ s,
    Runs.exec (step 1) (construct 0) [.enterLoop, .runInLoop 0 7] = some s ∧
      false ∈ s.asserted ∧ (7, 0) ∈ s.executed ∧ ¬ Confined 1 s := by
  refine ⟨_, rfl, by decide, by decide, ?_⟩
  intro h
  have hthread := h.executed (7, 0) (by decide)
  cases hthread

/-- The threads of a server after `TcpServer::start()`: the starting thread has
constructed the main reactor and the sub-reactors, and each loop has a thread of its own. -/
structure StartedServer where
  starter : Thread
  mainThread : Thread
  reactorThreads : List Thread
  fresh : starter ∉ mainThread :: reactorThreads

/-- No reactor of a started server gets past the head of its loop with its
assertions intact. -/
theorem started_asserts {server : StartedServer} {loop : Thread}
    (hloop : loop ∈ server.mainThread :: server.reactorThreads) {s : State}
    (hs : Runs.Reachable (· = construct server.starter) (step loop) s) (hpc : s.pc ≠ .outside) :
    false ∈ s.asserted := by
  have hne : server.starter ≠ loop := by
    rintro rfl
    exact server.fresh hloop
  exact assertion_fails hne hs hpc

end ReactorThreads
