import OrderEngine.ReactorQueue

/-!
# The loop comes to each waiting task

While `quit_` is not set, the loop thread can always go on: it ends what user code has called,
handles the channels that are left, and swaps and runs the queue. After the end of `loop` it runs
nothing more.
-/
namespace TaskProgress

open Reactor ReactorQueue

/-- The loop thread gets on by steps of its own, which leave the queue and `quit_`. -/
structure GetsOn (loop : Thread) (s t : State) : Prop where
  leads : Runs.Leads (step loop) s t
  pendingTasks : t.pendingTasks = s.pendingTasks
  quit : t.quit = s.quit

theorem getsOn_refl (loop : Thread) (s : State) : GetsOn loop s s := ⟨Runs.leads_refl, rfl, rfl⟩

theorem getsOn_step {loop : Thread} {s t : State} {a : Action} (h : step loop s a = some t)
    (hpending : t.pendingTasks = s.pendingTasks) (hquit : t.quit = s.quit) : GetsOn loop s t :=
  ⟨Runs.leads_step h, hpending, hquit⟩

theorem getsOn_trans {loop : Thread} {s t u : State} (h : GetsOn loop s t)
    (h' : GetsOn loop t u) : GetsOn loop s u :=
  ⟨Runs.leads_trans h.leads h'.leads, h'.pendingTasks.trans h.pendingTasks, h'.quit.trans h.quit⟩

/-- The loop thread ends the call that it is in. -/
theorem getsOn_called (loop : Thread) (s : State) :
    ∃ t, GetsOn loop s t ∧ t.pc = s.pc ∧ t.call loop = none := by
  have hends : ∀ {a : Action} {t : State}, step loop s a = some t →
      (t = (s.endCall loop).wakeup ∨ t = s.endCall loop) →
      ∃ t, GetsOn loop s t ∧ t.pc = s.pc ∧ t.call loop = none := by
    rintro a t ha (rfl | rfl)
    · obtain ⟨n, _, hwake⟩ := wakeup_eq (s.endCall loop)
      rw [hwake] at ha
      exact ⟨_, getsOn_step ha rfl rfl, rfl, Function.update_self ..⟩
    · exact ⟨_, getsOn_step ha rfl rfl, rfl, Function.update_self ..⟩
  cases hcall : s.call loop with
  | none => exact ⟨s, getsOn_refl loop s, rfl, hcall⟩
  | some call =>
    cases call with
    | pushed =>
      have hstep : step loop s (.wakeupAfterPush loop) = some (s.wakeupAfterPush loop) :=
        Runs.guarded_eq_some.mpr ⟨hcall, rfl⟩
      exact hends hstep (ite_eq_or_eq ..)
    | quitSet =>
      have hstep : step loop s (.wakeupAfterQuit loop) = some (s.wakeupAfterQuit loop) :=
        Runs.guarded_eq_some.mpr ⟨hcall, rfl⟩
      exact hends hstep (ite_eq_or_eq ..)

/-- The user code that a callback or a task runs on the loop thread comes to its end. -/
theorem getsOn_settled (loop : Thread) {s : State} (huser : s.pc.userCode = true) :
    ∃ t, GetsOn loop s t ∧ t.pc = s.pc ∧ t.call loop = none ∧ t.inlineTasks loop = 0 := by
  obtain ⟨t, ht, hpc, hcall⟩ := getsOn_called loop s
  generalize hinline : t.inlineTasks loop = n
  induction n generalizing t with
  | zero => exact ⟨t, ht, hpc, hcall, hinline⟩
  | succ n ih =>
    have hends : step loop t (.inlineReturns loop) = some (t.endInline loop) :=
      Runs.guarded_eq_some.mpr ⟨⟨⟨hcall, fun _ => hpc ▸ huser⟩, by omega⟩, rfl⟩
    apply ih (t.endInline loop) (getsOn_trans ht (getsOn_step hends rfl rfl)) hpc hcall
    simp [State.endInline, hinline]

theorem getsOn_callback (loop : Thread) {s : State} {rest : List Active}
    (hpc : s.pc = .callback rest) : ∃ t, GetsOn loop s t ∧ t.pc = .dispatch rest := by
  obtain ⟨t, ht, htpc, hcall, hinline⟩ := getsOn_settled loop (s := s) (by rw [hpc]; rfl)
  have hreturns : step loop t .callbackReturns = some { t with pc := .dispatch rest } := by
    simp [step, htpc, hpc, hcall, hinline, Runs.guarded]
  exact ⟨_, getsOn_trans ht (getsOn_step hreturns rfl rfl), rfl⟩

theorem getsOn_task (loop : Thread) {s : State} {rest : List Task} (hpc : s.pc = .task rest) :
    ∃ t, GetsOn loop s t ∧ t.pc = .batch rest := by
  obtain ⟨t, ht, htpc, hcall, hinline⟩ := getsOn_settled loop (s := s) (by rw [hpc]; rfl)
  have hreturns : step loop t .taskReturns = some { t with pc := .batch rest } := by
    simp [step, htpc, hpc, hcall, hinline, Runs.guarded]
  exact ⟨_, getsOn_trans ht (getsOn_step hreturns rfl rfl), rfl⟩

/-- The loop thread handles the channels that are left, and comes to the swap. -/
theorem getsOn_swap (loop : Thread) {s : State} {active : List Active}
    (hpc : s.pc = .dispatch active) : ∃ t, GetsOn loop s t ∧ t.pc = .swap := by
  have hnext : step loop s .dispatchNext = some (s.dispatchNext active) := by simp [step, hpc]
  induction active generalizing s with
  | nil => exact ⟨_, getsOn_step hnext rfl rfl, rfl⟩
  | cons head rest ih =>
    have hrest : ∃ t, GetsOn loop s t ∧ t.pc = .dispatch rest := by
      cases head with
      | wakeupChannel => exact ⟨_, getsOn_step hnext rfl rfl, rfl⟩
      | channel id =>
        obtain ⟨t, ht, htpc⟩ :=
          getsOn_callback loop (s := s.dispatchNext (.channel id :: rest)) rfl
        exact ⟨t, getsOn_trans (getsOn_step hnext rfl rfl) ht, htpc⟩
    obtain ⟨t, ht, htpc⟩ := hrest
    obtain ⟨u, hu, hupc⟩ := ih htpc (by simp [step, htpc])
    exact ⟨u, getsOn_trans ht hu, hupc⟩

/-- The loop thread runs the tasks that are left of its batch, and comes to the test of `quit_`. -/
theorem getsOn_test (loop : Thread) {s : State} {tasks : List Task} (hpc : s.pc = .batch tasks) :
    ∃ t, GetsOn loop s t ∧ t.pc = .test := by
  have hnext : step loop s .nextTask = some (s.nextTask loop tasks) := by simp [step, hpc]
  induction tasks generalizing s with
  | nil => exact ⟨_, getsOn_step hnext rfl rfl, rfl⟩
  | cons task rest ih =>
    obtain ⟨t, ht, htpc⟩ := getsOn_task loop (s := s.nextTask loop (task :: rest)) rfl
    obtain ⟨u, hu, hupc⟩ := ih htpc (by simp [step, htpc])
    exact ⟨u, getsOn_trans (getsOn_trans (getsOn_step hnext rfl rfl) ht) hu, hupc⟩

/-- The loop thread is in `loop()`. -/
def Inside (pc : Pc) : Prop := pc ≠ .outside ∧ pc ≠ .returned

/-- From anywhere in a loop that goes on, the loop thread comes to the swap. -/
theorem getsOn_round (loop : Thread) {s : State} (hinside : Inside s.pc) (hquit : s.quit = false) :
    ∃ t, GetsOn loop s t ∧ t.pc = .swap := by
  have hpoll : ∀ {t : State}, GetsOn loop s t → t.pc = .poll →
      ∃ u, GetsOn loop s u ∧ u.pc = .swap := by
    intro t ht hpc
    have hpolls : step loop t (.pollReturns []) = some { t with pc := .dispatch [] } := by
      simp [step, hpc, Runs.guarded]
    obtain ⟨u, hu, hupc⟩ := getsOn_swap loop (s := { t with pc := .dispatch [] }) rfl
    exact ⟨u, getsOn_trans (getsOn_trans ht (getsOn_step hpolls rfl rfl)) hu, hupc⟩
  have htest : ∀ {t : State}, GetsOn loop s t → t.pc = .test →
      ∃ u, GetsOn loop s u ∧ u.pc = .swap := by
    intro t ht hpc
    have htests : step loop t .testQuit = some { t with pc := .poll } := by
      simp [step, hpc, Runs.guarded, State.testQuit, ht.quit, hquit]
    exact hpoll (getsOn_trans ht (getsOn_step htests rfl rfl)) rfl
  cases hpc : s.pc with
  | outside => exact absurd hpc hinside.1
  | returned => exact absurd hpc hinside.2
  | test => exact htest (getsOn_refl loop s) hpc
  | poll => exact hpoll (getsOn_refl loop s) hpc
  | swap => exact ⟨s, getsOn_refl loop s, hpc⟩
  | dispatch active => exact getsOn_swap loop hpc
  | callback rest =>
    obtain ⟨t, ht, htpc⟩ := getsOn_callback loop hpc
    obtain ⟨u, hu, hupc⟩ := getsOn_swap loop htpc
    exact ⟨u, getsOn_trans ht hu, hupc⟩
  | batch tasks =>
    obtain ⟨t, ht, htpc⟩ := getsOn_test loop hpc
    exact htest ht htpc
  | task rest =>
    obtain ⟨t, ht, htpc⟩ := getsOn_task loop hpc
    obtain ⟨u, hu, hupc⟩ := getsOn_test loop htpc
    exact htest (getsOn_trans ht hu) hupc

/-- In a loop that goes on, each waiting task can be run. -/
theorem leads_ran {loop : Thread} {s : State} (hinside : Inside s.pc) (hquit : s.quit = false) :
    ∃ acts t, Runs.exec (step loop) s acts = some t ∧
      ∀ task ∈ waiting s, task ∈ Flow.emitted (step loop) ran s acts := by
  obtain ⟨t, ht, htpc⟩ := getsOn_round loop hinside hquit
  have hswap : step loop t .swapTasks = some t.swapTasks := Runs.guarded_eq_some.mpr ⟨htpc, rfl⟩
  obtain ⟨u, hu, hupc⟩ := getsOn_test loop (s := t.swapTasks) rfl
  have hdrains := Runs.leads_trans (Runs.leads_step hswap) hu.leads
  obtain ⟨acts, hrun⟩ := Runs.leads_trans ht.leads hdrains
  refine ⟨acts, u, hrun, ?_⟩
  intro task htask
  have hdrained : waiting u = [] := by
    simp only [waiting, hupc, batchRest, hu.pendingTasks, State.swapTasks, List.append_nil]
  have hflow := Flow.conserved_exec (conserves_step loop) hrun
  rw [hdrained, List.append_nil] at hflow
  rw [← hflow]
  exact List.mem_append_left _ htask

/-- After the end of the loop no task is run. -/
theorem ran_returned {loop : Thread} {s : State} {acts : List Action} (hpc : s.pc = .returned) :
    Flow.emitted (step loop) ran s acts = [] := by
  apply Flow.emitted_nil (fun s => s.pc = .returned) ?_ ?_ hpc
    (Runs.along_of_forall (p := fun _ => True) (fun _ _ => trivial))
  · intro s a t hs _ h
    cases outcome_of_step h with
    | wakesAfterPush u | wakesAfterQuit u =>
      obtain ⟨n, _, hwake⟩ := wakeup_eq (s.endCall u)
      rw [hwake]
      exact hs
    | queueInLoop | runsQueued | skipsWakeup | runsInline | inlineReturns | quit | quitsInLoop
    | updateChannel => exact hs
    | _ => simp_all
  · intro s a hs
    cases a <;> simp [ran, hs]

end TaskProgress
