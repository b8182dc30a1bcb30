import OrderEngine.ReactorTimers
import Mathlib.Data.List.Chain
import Mathlib.Data.List.Perm.Basic

/-!
# Reactor: tasks that come again

`runEvery` hands `runAfter` a lambda that performs the task and calls `runEvery` again. The lambda
of a job goes from a sleeping thread to `pending_tasks_`, to the vector of `doPendingTasks`, and,
after its task, back to a thread. The loop may spend any time on other tasks and events between,
and ends when it finds that `quit` has been called.
-/
namespace PeriodicTasks

open ReactorTimers (castMilliseconds)

/-- A call of `runEvery` that is not a lambda's, by its number. -/
abbrev JobId := Nat

/-- A job, with the time of its call of `runEvery` and the times at which its task has begun. -/
structure Job (Seconds : Type) where
  interval : Seconds
  asked : Int
  begins : List Int

/-- The last begin of the task; before the first, the call. -/
def Job.latest {Seconds : Type} (j : Job Seconds) : Int := j.begins.getLastD j.asked

/-- A thread of `runAfter`, and when its sleep is over. -/
structure Sleeper where
  job : JobId
  wakes : Int

/-- Where `loop` is: at the test of `quit_`, before `doPendingTasks`, in it, or at its end. -/
inductive Place where
  | test
  | events
  | tasks
  | returned
  deriving DecidableEq

/-- The clock in milliseconds, `quit_` and the place of `loop`, the jobs, the threads,
`pending_tasks_`, the rest of the vector of `doPendingTasks`, and the lambda that the loop
performs. -/
structure State (Seconds : Type) where
  clock : Int
  quit : Bool
  place : Place
  jobs : List (Job Seconds)
  sleeping : List Sleeper
  pendingTasks : List JobId
  tasks : List JobId
  running : Option JobId

/-- No job yet, at whatever time, and a loop that begins. -/
def idle (Seconds : Type) (clock : Int) : State Seconds where
  clock := clock
  quit := false
  place := .test
  jobs := []
  sleeping := []
  pendingTasks := []
  tasks := []
  running := none

inductive Action (Seconds : Type) where
  | pass (milliseconds : Nat)
  | runEvery (interval : Seconds)
  | wake (i : Nat)
  | quit
  | testQuit
  | doPendingTasks
  | taskBegins
  | taskReturns
  | tasksEnd

section
variable {Seconds : Type}

-- `static_cast<int>(interval_seconds * 1000)`, for a product of `double`s; `none` where the `int`
-- cannot hold it, which is undefined.
variable (milliseconds : Seconds → Option Int)

/-- `runAfter` starts a thread for the lambda. -/
def runAfter (s : State Seconds) (k : JobId) (interval : Seconds) : Option (State Seconds) :=
  (milliseconds interval).map
    (fun ms => { s with sleeping := s.sleeping ++ [{ job := k, wakes := s.clock + ms }] })

/-- The jobs, with one more begin of a task. -/
def begun (s : State Seconds) (k : JobId) : List (Job Seconds) :=
  s.jobs.modify k (fun j => { j with begins := j.begins ++ [s.clock] })

/-- One step; `none` also where the code is undefined. A thread is not the loop's, so that its
`runInLoop` queues the lambda, and it may wake late. -/
def step (s : State Seconds) : Action Seconds → Option (State Seconds)
  | .pass ms => some { s with clock := s.clock + ms }
  | .runEvery interval =>
    runAfter milliseconds
      { s with jobs := s.jobs ++ [{ interval := interval, asked := s.clock, begins := [] }] }
      s.jobs.length interval
  | .wake i =>
    match s.sleeping[i]? with
    | none => none
    | some t =>
      Runs.guarded (t.wakes ≤ s.clock) { s with
        sleeping := s.sleeping.eraseIdx i
        pendingTasks := s.pendingTasks ++ [t.job] }
  | .quit => some { s with quit := true }
  | .testQuit =>
    Runs.guarded (s.place = .test) { s with place := if s.quit then .returned else .events }
  | .doPendingTasks =>
    Runs.guarded (s.place = .events)
      { s with place := .tasks, tasks := s.pendingTasks, pendingTasks := [] }
  | .taskBegins =>
    match s.running, s.tasks with
    | none, k :: rest => some { s with jobs := begun s k, tasks := rest, running := some k }
    | _, _ => none
  | .taskReturns =>
    match s.running with
    | none => none
    | some k =>
      match s.jobs[k]? with
      | none => none
      | some j => runAfter milliseconds { s with running := none } k j.interval
  | .tasksEnd =>
    Runs.guarded (s.place = .tasks ∧ s.tasks = [] ∧ s.running = none) { s with place := .test }

/-- What a step can do, one case for each action. -/
inductive Outcome (s : State Seconds) : Action Seconds → State Seconds → Prop where
  | pass (ms : Nat) : Outcome s (.pass ms) { s with clock := s.clock + ms }
  | asks (interval : Seconds) (ms : Int) (hms : milliseconds interval = some ms) :
      Outcome s (.runEvery interval) { s with
        jobs := s.jobs ++ [{ interval := interval, asked := s.clock, begins := [] }]
        sleeping := s.sleeping ++ [{ job := s.jobs.length, wakes := s.clock + ms }] }
  | wakes (i : Nat) (hi : i < s.sleeping.length) (hawake : s.sleeping[i].wakes ≤ s.clock) :
      Outcome s (.wake i) { s with
        sleeping := s.sleeping.eraseIdx i
        pendingTasks := s.pendingTasks ++ [s.sleeping[i].job] }
  | quit : Outcome s .quit { s with quit := true }
  | goesOn (hplace : s.place = .test) (hquit : s.quit = false) :
      Outcome s .testQuit { s with place := .events }
  | ends (hplace : s.place = .test) (hquit : s.quit = true) :
      Outcome s .testQuit { s with place := .returned }
  | takes (hplace : s.place = .events) :
      Outcome s .doPendingTasks
        { s with place := .tasks, tasks := s.pendingTasks, pendingTasks := [] }
  | begins (k : JobId) (rest : List JobId) (hrunning : s.running = none)
      (htasks : s.tasks = k :: rest) :
      Outcome s .taskBegins { s with jobs := begun s k, tasks := rest, running := some k }
  | returns (k : JobId) (j : Job Seconds) (ms : Int) (hrunning : s.running = some k)
      (hjob : s.jobs[k]? = some j) (hms : milliseconds j.interval = some ms) :
      Outcome s .taskReturns { s with
        running := none
        sleeping := s.sleeping ++ [{ job := k, wakes := s.clock + ms }] }
  | drained (hplace : s.place = .tasks) (htasks : s.tasks = []) (hrunning : s.running = none) :
      Outcome s .tasksEnd { s with place := .test }

variable {milliseconds}

theorem outcome_of_step {s t : State Seconds} {a : Action Seconds}
    (h : step milliseconds s a = some t) : Outcome milliseconds s a t := by
  cases a with
  | pass ms =>
    cases h
    exact .pass ms
  | runEvery interval =>
    obtain ⟨ms, hms, rfl⟩ := Option.map_eq_some_iff.mp h
    exact .asks interval ms hms
  | wake i =>
    by_cases hi : i < s.sleeping.length
    · simp only [step, List.getElem?_eq_getElem hi, Runs.guarded_eq_some] at h
      obtain ⟨hawake, rfl⟩ := h
      exact .wakes i hi hawake
    · simp [step, List.getElem?_eq_none (Nat.le_of_not_lt hi)] at h
  | quit =>
    cases h
    exact .quit
  | testQuit =>
    obtain ⟨hplace, rfl⟩ := Runs.guarded_eq_some.mp h
    split
    · rename_i hquit
      exact .ends hplace hquit
    · rename_i hquit
      exact .goesOn hplace (by simpa using hquit)
  | doPendingTasks =>
    obtain ⟨hplace, rfl⟩ := Runs.guarded_eq_some.mp h
    exact .takes hplace
  | taskBegins =>
    simp only [step] at h
    split at h
    · rename_i k rest hrunning htasks
      cases h
      exact .begins k rest hrunning htasks
    · cases h
  | taskReturns =>
    cases hrunning : s.running with
    | none => simp [step, hrunning] at h
    | some k =>
      cases hjob : s.jobs[k]? with
      | none => simp [step, hrunning, hjob] at h
      | some j =>
        simp only [step, hrunning, hjob] at h
        obtain ⟨ms, hms, rfl⟩ := Option.map_eq_some_iff.mp h
        exact .returns k j ms hrunning hjob hms
  | tasksEnd =>
    obtain ⟨⟨hplace, htasks, hrunning⟩, rfl⟩ := Runs.guarded_eq_some.mp h
    exact .drained hplace htasks hrunning

/-- Where the lambdas are. -/
def State.lambdas (s : State Seconds) : List JobId :=
  s.sleeping.map Sleeper.job ++ s.pendingTasks ++ s.tasks ++ s.running.toList

variable (milliseconds) in
/-- The interval has passed since the task last began. -/
def Job.Due (j : Job Seconds) (time : Int) : Prop :=
  ∃ ms, milliseconds j.interval = some ms ∧ j.latest + ms ≤ time

variable (milliseconds) in
/-- From the call on, the task begins at least an interval after it last began. -/
def Job.Spaced (j : Job Seconds) (now : Int) : Prop :=
  j.latest ≤ now ∧ ∃ ms, milliseconds j.interval = some ms ∧
    (j.asked :: j.begins).IsChain (fun a b => a + ms ≤ b)

variable (milliseconds) in
/-- Each job has one lambda, which is not on its way to the loop before the job is due. Only
`doPendingTasks` has tasks, and only `quit` ends the loop. -/
structure Regular (s : State Seconds) : Prop where
  outside : s.place ≠ .tasks → s.tasks = [] ∧ s.running = none
  returned : s.place = .returned → s.quit = true
  lambdas : ∀ k : Nat, s.lambdas.count k = if k < s.jobs.length then 1 else 0
  sleeping : ∀ t ∈ s.sleeping, ∀ j, s.jobs[t.job]? = some j → j.Due milliseconds t.wakes
  queued : ∀ k ∈ s.pendingTasks ++ s.tasks, ∀ j, s.jobs[k]? = some j → j.Due milliseconds s.clock
  jobs : ∀ j ∈ s.jobs, j.Spaced milliseconds s.clock

theorem due_mono {j : Job Seconds} {now later : Int} (h : j.Due milliseconds now)
    (hle : now ≤ later) : j.Due milliseconds later := by
  obtain ⟨ms, hms, hdue⟩ := h
  exact ⟨ms, hms, by omega⟩

theorem spaced_mono {j : Job Seconds} {now later : Int} (h : j.Spaced milliseconds now)
    (hle : now ≤ later) : j.Spaced milliseconds later :=
  ⟨by have := h.1; omega, h.2⟩

/-- A task that begins when its job is due keeps to the interval. -/
theorem spaced_begun {j : Job Seconds} {now : Int} (h : j.Spaced milliseconds now)
    (hdue : j.Due milliseconds now) :
    Job.Spaced milliseconds { j with begins := j.begins ++ [now] } now := by
  obtain ⟨ms, hms, hlatest⟩ := hdue
  obtain ⟨_, ms', hms', hchain⟩ := h
  rw [hms] at hms'
  cases hms'
  constructor
  · simp [Job.latest]
  · refine ⟨ms, hms, ?_⟩
    change ((j.asked :: j.begins) ++ [now]).IsChain _
    apply hchain.append (.singleton now)
    intro a ha b hb
    cases hb
    rw [List.getLast?_cons] at ha
    cases ha
    rwa [Job.latest, List.getLastD_eq_getLast?] at hlatest

theorem count_lambdas (s : State Seconds) (k : Nat) :
    s.lambdas.count k =
      (s.sleeping.map Sleeper.job).count k + s.pendingTasks.count k + s.tasks.count k +
        s.running.toList.count k := by
  simp only [State.lambdas, List.count_append]

/-- What is at one place is not at another, nor twice there. -/
theorem alone {s : State Seconds} (h : Regular milliseconds s) (k : Nat) :
    (s.sleeping.map Sleeper.job).count k + s.pendingTasks.count k + s.tasks.count k +
      s.running.toList.count k ≤ 1 := by
  rw [← count_lambdas, h.lambdas]
  split <;> omega

theorem lt_of_lambda {s : State Seconds} (h : Regular milliseconds s) {k : Nat}
    (hk : k ∈ s.lambdas) : k < s.jobs.length := by
  have hcount := h.lambdas k
  have hpos := List.count_pos_iff.mpr hk
  split at hcount <;> omega

theorem regular_pass {s : State Seconds} (h : Regular milliseconds s) (ms : Nat) :
    Regular milliseconds { s with clock := s.clock + ms } := by
  have hle : s.clock ≤ s.clock + ms := by omega
  refine ⟨h.outside, h.returned, ?_, ?_, ?_, ?_⟩
  · exact h.lambdas
  · exact h.sleeping
  · intro k hk j hj
    exact due_mono (h.queued k hk j hj) hle
  · intro j hj
    exact spaced_mono (h.jobs j hj) hle

/-- The jobs before the call are where they were. -/
theorem getElem?_asked {s : State Seconds} (h : Regular milliseconds s) {k : Nat}
    (hk : k ∈ s.lambdas) (added : Job Seconds) : (s.jobs ++ [added])[k]? = s.jobs[k]? :=
  List.getElem?_append_left (lt_of_lambda h hk)

theorem regular_asks {s : State Seconds} (h : Regular milliseconds s) {interval : Seconds}
    {ms : Int} (hms : milliseconds interval = some ms) :
    Regular milliseconds { s with
      jobs := s.jobs ++ [{ interval := interval, asked := s.clock, begins := [] }]
      sleeping := s.sleeping ++ [{ job := s.jobs.length, wakes := s.clock + ms }] } := by
  refine ⟨h.outside, h.returned, ?_, ?_, ?_, ?_⟩
  · intro k
    have hcount := h.lambdas k
    rw [count_lambdas] at hcount
    rw [count_lambdas]
    simp only [List.map_append, List.map_cons, List.map_nil, List.count_append,
      List.count_singleton, beq_iff_eq, List.length_append, List.length_singleton]
    split_ifs at hcount ⊢ <;> omega
  · intro t ht j hj
    cases List.mem_append.mp ht with
    | inl hold =>
      have hlambda : t.job ∈ s.lambdas := by
        simp only [State.lambdas, List.mem_append, List.mem_map]
        exact .inl (.inl (.inl ⟨t, hold, rfl⟩))
      rw [getElem?_asked h hlambda] at hj
      exact h.sleeping t hold j hj
    | inr hnew =>
      rw [List.mem_singleton] at hnew
      subst hnew
      simp only [List.getElem?_concat_length, Option.some.injEq] at hj
      subst hj
      exact ⟨ms, hms, Int.le_refl _⟩
  · intro k hk j hj
    have hlambda : k ∈ s.lambdas := by
      simp only [State.lambdas, List.append_assoc, List.mem_append] at hk ⊢
      cases hk with
      | inl hpending => exact .inr (.inl hpending)
      | inr htasks => exact .inr (.inr (.inl htasks))
    rw [getElem?_asked h hlambda] at hj
    exact h.queued k hk j hj
  · intro j hj
    cases List.mem_append.mp hj with
    | inl hold => exact h.jobs j hold
    | inr hnew =>
      rw [List.mem_singleton] at hnew
      subst hnew
      exact ⟨Int.le_refl _, ms, hms, .singleton _⟩

theorem regular_wakes {s : State Seconds} (h : Regular milliseconds s) {i : Nat}
    (hi : i < s.sleeping.length) (hawake : s.sleeping[i].wakes ≤ s.clock) :
    Regular milliseconds { s with
      sleeping := s.sleeping.eraseIdx i
      pendingTasks := s.pendingTasks ++ [s.sleeping[i].job] } := by
  refine ⟨h.outside, h.returned, ?_, ?_, ?_, ?_⟩
  · intro k
    have hperm := (List.getElem_cons_eraseIdx_perm hi).map Sleeper.job
    have hmoved := hperm.count_eq k
    rw [List.map_cons, List.count_cons] at hmoved
    rw [← h.lambdas k, count_lambdas, count_lambdas]
    simp only [List.count_append, List.count_singleton]
    omega
  · intro t ht
    exact h.sleeping t (List.mem_of_mem_eraseIdx ht)
  · intro k hk j hj
    simp only [List.append_assoc, List.mem_append, List.mem_singleton] at hk
    have hqueued := h.queued k
    simp only [List.mem_append] at hqueued
    rcases hk with hpending | rfl | htasks
    · exact hqueued (.inl hpending) j hj
    · exact due_mono (h.sleeping _ (List.getElem_mem hi) j hj) hawake
    · exact hqueued (.inr htasks) j hj
  · exact h.jobs

theorem regular_takes {s : State Seconds} (h : Regular milliseconds s)
    (hplace : s.place = .events) :
    Regular milliseconds
      { s with place := .tasks, tasks := s.pendingTasks, pendingTasks := [] } := by
  obtain ⟨htasks, _⟩ := h.outside (by simp [hplace])
  have hqueued := h.queued
  rw [htasks, List.append_nil] at hqueued
  refine ⟨fun hother => absurd rfl hother, nofun, ?_, ?_, ?_, ?_⟩
  · intro k
    rw [← h.lambdas k, count_lambdas, count_lambdas, htasks]
    simp
  · exact h.sleeping
  · exact hqueued
  · exact h.jobs

theorem place_of_tasks {s : State Seconds} (h : Regular milliseconds s) (htasks : s.tasks ≠ []) :
    s.place = .tasks := by
  by_contra hplace
  exact htasks (h.outside hplace).1

theorem getElem?_begun {s : State Seconds} {k l : Nat} (h : k ≠ l) :
    (begun s k)[l]? = s.jobs[l]? :=
  List.getElem?_modify_ne _ s.jobs h

theorem regular_begins {s : State Seconds} (h : Regular milliseconds s) {k : Nat}
    {rest : List JobId} (hrunning : s.running = none) (htasks : s.tasks = k :: rest) :
    Regular milliseconds { s with jobs := begun s k, tasks := rest, running := some k } := by
  have halone := alone h k
  rw [htasks, List.count_cons_self] at halone
  have hlength : (begun s k).length = s.jobs.length := List.length_modify _ s.jobs k
  have hplace := place_of_tasks h (by simp [htasks])
  refine ⟨fun hother => absurd hplace hother, h.returned, ?_, ?_, ?_, ?_⟩
  · intro l
    rw [hlength, ← h.lambdas l, count_lambdas, count_lambdas, htasks, hrunning]
    simp only [Option.toList_some, Option.toList_none, List.count_cons, List.count_nil]
    omega
  · intro t ht j hj
    have hne : k ≠ t.job := by
      rintro rfl
      have hpos : 0 < (s.sleeping.map Sleeper.job).count t.job :=
        List.count_pos_iff.mpr (List.mem_map_of_mem ht)
      omega
    rw [getElem?_begun hne] at hj
    exact h.sleeping t ht j hj
  · intro l hl j hj
    have hne : k ≠ l := by
      rintro rfl
      have hpos : 0 < (s.pendingTasks ++ rest).count k := List.count_pos_iff.mpr hl
      rw [List.count_append] at hpos
      omega
    rw [getElem?_begun hne] at hj
    apply h.queued l _ j hj
    rw [htasks]
    simp only [List.mem_append, List.mem_cons] at hl ⊢
    cases hl with
    | inl hpending => exact .inl hpending
    | inr hrest => exact .inr (.inr hrest)
  · intro j hj
    obtain ⟨l, hl⟩ := List.mem_iff_getElem?.mp hj
    by_cases hkl : k = l
    · subst hkl
      rw [begun, List.getElem?_modify_eq, Option.map_eq_map, Option.map_eq_some_iff] at hl
      obtain ⟨j', hj', rfl⟩ := hl
      have hdue := h.queued k (by simp [htasks]) j' hj'
      exact spaced_begun (h.jobs j' (List.mem_of_getElem? hj')) hdue
    · rw [getElem?_begun hkl] at hl
      exact h.jobs j (List.mem_of_getElem? hl)

theorem regular_returns {s : State Seconds} (h : Regular milliseconds s) {k : Nat}
    {j : Job Seconds} {ms : Int} (hrunning : s.running = some k) (hjob : s.jobs[k]? = some j)
    (hms : milliseconds j.interval = some ms) :
    Regular milliseconds { s with
      running := none
      sleeping := s.sleeping ++ [{ job := k, wakes := s.clock + ms }] } := by
  refine ⟨fun hother => ⟨(h.outside hother).1, rfl⟩, h.returned, ?_, ?_, ?_, ?_⟩
  · intro l
    rw [← h.lambdas l, count_lambdas, count_lambdas, hrunning]
    simp only [List.map_append, List.map_cons, List.map_nil, List.count_append,
      Option.toList_some, Option.toList_none, List.count_nil]
    omega
  · intro t ht j' hj'
    cases List.mem_append.mp ht with
    | inl hold => exact h.sleeping t hold j' hj'
    | inr hnew =>
      rw [List.mem_singleton] at hnew
      subst hnew
      rw [hjob] at hj'
      cases hj'
      have hlatest := (h.jobs j (List.mem_of_getElem? hjob)).1
      exact ⟨ms, hms, by simpa using hlatest⟩
  · exact h.queued
  · exact h.jobs

theorem regular_step (s : State Seconds) (a : Action Seconds) (t : State Seconds)
    (hs : Regular milliseconds s) (h : step milliseconds s a = some t) :
    Regular milliseconds t := by
  cases outcome_of_step h with
  | pass ms => exact regular_pass hs ms
  | asks interval ms hms => exact regular_asks hs hms
  | wakes i hi hawake => exact regular_wakes hs hi hawake
  | quit => exact ⟨hs.outside, fun _ => rfl, hs.lambdas, hs.sleeping, hs.queued, hs.jobs⟩
  | goesOn hplace =>
    have houtside := hs.outside (by simp [hplace])
    exact ⟨fun _ => houtside, nofun, hs.lambdas, hs.sleeping, hs.queued, hs.jobs⟩
  | ends hplace hquit =>
    have houtside := hs.outside (by simp [hplace])
    exact ⟨fun _ => houtside, fun _ => hquit, hs.lambdas, hs.sleeping, hs.queued, hs.jobs⟩
  | takes hplace => exact regular_takes hs hplace
  | begins k rest hrunning htasks => exact regular_begins hs hrunning htasks
  | returns k j ms hrunning hjob hms => exact regular_returns hs hrunning hjob hms
  | drained hplace htasks hrunning =>
    exact ⟨fun _ => ⟨htasks, hrunning⟩, nofun, hs.lambdas, hs.sleeping, hs.queued, hs.jobs⟩

theorem regular_idle (clock : Int) : Regular milliseconds (idle Seconds clock) := by
  refine ⟨fun _ => ⟨rfl, rfl⟩, nofun, ?_, ?_, ?_, ?_⟩
  · intro k
    simp [idle, State.lambdas]
  · simp [idle]
  · simp [idle]
  · simp [idle]

theorem regular_exec {clock : Int} {acts : List (Action Seconds)} {s : State Seconds}
    (hrun : Runs.exec (step milliseconds) (idle Seconds clock) acts = some s) :
    Regular milliseconds s :=
  Runs.invariant_exec (Regular milliseconds) regular_step (regular_idle clock) hrun

/-- Times that are spaced come to their number of intervals. -/
theorem spaced_bound {ms : Int} {times : List Int} {first : Int}
    (h : (first :: times).IsChain (fun a b => a + ms ≤ b)) :
    first + times.length * ms ≤ times.getLastD first := by
  induction times generalizing first with
  | nil => simp
  | cons time rest ih =>
    obtain ⟨hnext, hrest⟩ := List.isChain_cons_cons.mp h
    have hbound := ih hrest
    rw [List.length_cons, List.getLastD_cons]
    push_cast
    rw [Int.add_mul]
    omega

/-- In every run, a job of `runEvery` has exactly one lambda, asleep, queued or at work: it is
never lost, and it does not meet itself. Its task begins for the first time at least an interval
after the call, and then at least an interval after it last began. -/
theorem runEvery_keeps_interval {clock : Int} {acts : List (Action Seconds)} {s : State Seconds}
    (hrun : Runs.exec (step milliseconds) (idle Seconds clock) acts = some s)
    {k : Nat} {j : Job Seconds} (hj : s.jobs[k]? = some j) :
    s.lambdas.count k = 1 ∧ ∃ ms, milliseconds j.interval = some ms ∧
      (j.asked :: j.begins).IsChain (fun a b => a + ms ≤ b) ∧
      j.asked + j.begins.length * ms ≤ s.clock := by
  have hregular := regular_exec hrun
  have hlt := (List.getElem?_eq_some_iff.mp hj).1
  obtain ⟨hlatest, ms, hms, hchain⟩ := hregular.jobs j (List.mem_of_getElem? hj)
  refine ⟨?_, ms, hms, hchain, ?_⟩
  · rw [hregular.lambdas, if_pos hlt]
  · exact Int.le_trans (spaced_bound hchain) hlatest

/-- A job for every second, whose second round comes late. -/
def everySecond : List (Action Int) :=
  [.runEvery 1, .testQuit, .pass 1000, .wake 0, .doPendingTasks, .taskBegins, .pass 30,
    .taskReturns, .tasksEnd, .testQuit, .pass 1200, .wake 0, .doPendingTasks, .taskBegins]

def secondJob : Job Int where
  interval := 1
  asked := 0
  begins := [1000, 2230]

def afterSeconds : State Int where
  clock := 2230
  quit := false
  place := .tasks
  jobs := [secondJob]
  sleeping := []
  pendingTasks := []
  tasks := []
  running := some (0 : Nat)

theorem everySecond_run :
    Runs.exec (step castMilliseconds) (idle Int 0) everySecond = some afterSeconds := by
  rfl

theorem runEvery_keeps_interval_second :
    afterSeconds.lambdas.count (0 : Nat) = 1 ∧ ∃ ms, castMilliseconds 1 = some ms ∧
      [0, 1000, 2230].IsChain (fun a b => a + ms ≤ b) ∧ 0 + (2 : Nat) * ms ≤ 2230 :=
  runEvery_keeps_interval (k := 0) (j := secondJob) everySecond_run rfl

/-- How often the task of a job has begun. -/
def State.begins (s : State Seconds) (k : Nat) : Nat := ((s.jobs[k]?).map (·.begins.length)).getD 0

/-- The task of a new job has not begun. -/
theorem begins_asks {s t : State Seconds} {j : Job Seconds} (hjobs : t.jobs = s.jobs ++ [j])
    (hj : j.begins = []) (k : Nat) : t.begins k = s.begins k := by
  rw [State.begins, State.begins, hjobs]
  rcases Nat.lt_trichotomy k s.jobs.length with hk | rfl | hk
  · rw [List.getElem?_append_left hk]
  · simp [hj]
  · have hnew : (s.jobs ++ [j])[k]? = none := by
      apply List.getElem?_eq_none
      rw [List.length_append, List.length_singleton]
      omega
    rw [hnew, List.getElem?_eq_none (Nat.le_of_lt hk)]

theorem begins_step {s t : State Seconds} {a : Action Seconds} (h : step milliseconds s a = some t)
    (k : Nat) : s.begins k ≤ t.begins k := by
  cases outcome_of_step h with
  | pass | wakes | quit | goesOn | ends | takes | returns | drained => exact Nat.le_refl _
  | asks => exact Nat.le_of_eq (begins_asks rfl rfl k).symm
  | begins l =>
    by_cases hl : l = k
    · subst hl
      cases hj : s.jobs[l]? with
      | none => simp [State.begins, hj]
      | some j => simp [State.begins, begun, hj]
    · simp [State.begins, getElem?_begun hl]

theorem begins_leads {s t : State Seconds} (h : Runs.Leads (step milliseconds) s t) (k : Nat) :
    s.begins k ≤ t.begins k := by
  apply Runs.leads_invariant (fun u => s.begins k ≤ u.begins k) _ (Nat.le_refl _) h
  intro u a v hu hstep
  exact Nat.le_trans hu (begins_step hstep k)

theorem jobs_leads {s t : State Seconds} (h : Runs.Leads (step milliseconds) s t) :
    s.jobs.length ≤ t.jobs.length := by
  apply Runs.leads_invariant (fun u => s.jobs.length ≤ u.jobs.length) _ (Nat.le_refl _) h
  intro u a v hu hstep
  cases outcome_of_step hstep with
  | pass | wakes | quit | goesOn | ends | takes | returns | drained => exact hu
  | asks => simp; omega
  | begins => simp [begun, hu]

/-- What holds of a state from which the loop goes on. -/
structure GoesOn (milliseconds : Seconds → Option Int) (s : State Seconds) : Prop where
  regular : Regular milliseconds s
  quit : s.quit = false

/-- Where the loop goes on without a call of `quit`. -/
def LeadsOn (milliseconds : Seconds → Option Int) (s t : State Seconds) : Prop :=
  Runs.Leads (step milliseconds) s t ∧ t.quit = s.quit

theorem leadsOn_refl (s : State Seconds) : LeadsOn milliseconds s s := ⟨Runs.leads_refl, rfl⟩

theorem leadsOn_step {s t : State Seconds} {a : Action Seconds}
    (h : step milliseconds s a = some t) (hquit : t.quit = s.quit) : LeadsOn milliseconds s t :=
  ⟨Runs.leads_step h, hquit⟩

theorem leadsOn_trans {s t u : State Seconds} (h : LeadsOn milliseconds s t)
    (h' : LeadsOn milliseconds t u) : LeadsOn milliseconds s u :=
  ⟨Runs.leads_trans h.1 h'.1, h'.2.trans h.2⟩

theorem goesOn_leadsOn {s t : State Seconds} (hs : GoesOn milliseconds s)
    (h : LeadsOn milliseconds s t) : GoesOn milliseconds t :=
  ⟨Runs.leads_invariant (Regular milliseconds) regular_step hs.regular h.1, h.2.trans hs.quit⟩

/-- The loop gets on when the task that it performs returns. -/
theorem leads_returns {s : State Seconds} (hs : Regular milliseconds s) :
    ∃ t, LeadsOn milliseconds s t ∧ t.running = none ∧ t.tasks = s.tasks ∧ t.place = s.place := by
  cases hrunning : s.running with
  | none => exact ⟨s, leadsOn_refl s, hrunning, rfl, rfl⟩
  | some k =>
    have hlt := lt_of_lambda hs (k := k) (by simp [State.lambdas, hrunning])
    have hjob := List.getElem?_eq_getElem hlt
    obtain ⟨_, ms, hms, _⟩ := hs.jobs _ (List.getElem_mem hlt)
    have hstep : step milliseconds s .taskReturns = some { s with
        running := none
        sleeping := s.sleeping ++ [{ job := k, wakes := s.clock + ms }] } := by
      simp [step, hrunning, hjob, runAfter, hms]
    exact ⟨_, leadsOn_step hstep rfl, rfl, rfl, rfl⟩

theorem leads_begins {s : State Seconds} (hs : Regular milliseconds s) {k : Nat}
    {rest : List JobId} (hrunning : s.running = none) (htasks : s.tasks = k :: rest) :
    ∃ t, LeadsOn milliseconds s t ∧ t.tasks = rest ∧ t.place = s.place ∧
      s.begins k < t.begins k := by
  have hlt := lt_of_lambda hs (k := k) (by simp [State.lambdas, htasks])
  have hstep : step milliseconds s .taskBegins =
      some { s with jobs := begun s k, tasks := rest, running := some k } := by
    simp [step, hrunning, htasks]
  refine ⟨_, leadsOn_step hstep rfl, rfl, rfl, ?_⟩
  simp [State.begins, begun, List.getElem?_eq_getElem hlt]

/-- `doPendingTasks` comes to the end of its vector and performs each lambda in it. -/
theorem leads_drained {s : State Seconds} (hs : GoesOn milliseconds s) :
    ∃ t, LeadsOn milliseconds s t ∧ t.running = none ∧ t.tasks = [] ∧ t.place = s.place ∧
      ∀ k ∈ s.tasks, s.begins k < t.begins k := by
  generalize hrest : s.tasks = rest
  induction rest generalizing s with
  | nil =>
    obtain ⟨t, ht, hrunning, htasks, hplace⟩ := leads_returns hs.regular
    refine ⟨t, ht, hrunning, htasks.trans hrest, hplace, ?_⟩
    intro k hk
    cases hk
  | cons l rest ih =>
    obtain ⟨t, ht, hrunning, htasks, htplace⟩ := leads_returns hs.regular
    obtain ⟨u, hu, hurest, huplace, hbegins⟩ :=
      leads_begins (goesOn_leadsOn hs ht).regular hrunning (htasks.trans hrest)
    have htu := leadsOn_trans ht hu
    obtain ⟨v, hv, hvrunning, hvtasks, hvplace, hvbegins⟩ := ih (goesOn_leadsOn hs htu) hurest
    refine ⟨v, leadsOn_trans htu hv, hvrunning, hvtasks,
      hvplace.trans (huplace.trans htplace), ?_⟩
    intro k hk
    cases List.mem_cons.mp hk with
    | inl hhead =>
      subst hhead
      have hst := begins_leads ht.1 k
      have huv := begins_leads hv.1 k
      omega
    | inr hlater =>
      have hsu := begins_leads htu.1 k
      have huv := hvbegins k hlater
      omega

/-- The loop comes to a round of its own, with all lambdas performed that were in its vector. -/
theorem leads_round {s : State Seconds} (hs : GoesOn milliseconds s) :
    ∃ t, LeadsOn milliseconds s t ∧ t.place = .events := by
  have htest : ∀ {u : State Seconds}, GoesOn milliseconds u → u.place = .test →
      LeadsOn milliseconds u { u with place := .events } := by
    intro u hu hplace
    have hstep : step milliseconds u .testQuit = some { u with place := .events } := by
      simp [step, hplace, hu.quit, Runs.guarded]
    exact leadsOn_step hstep rfl
  cases hplace : s.place with
  | events => exact ⟨s, leadsOn_refl s, hplace⟩
  | test => exact ⟨_, htest hs hplace, rfl⟩
  | returned =>
    have hquit := hs.regular.returned hplace
    rw [hs.quit] at hquit
    cases hquit
  | tasks =>
    obtain ⟨t, ht, hrunning, htasks, htplace, _⟩ := leads_drained hs
    have hend : step milliseconds t .tasksEnd = some { t with place := .test } :=
      Runs.guarded_eq_some.mpr ⟨⟨htplace.trans hplace, htasks, hrunning⟩, rfl⟩
    have hround := leadsOn_trans ht (leadsOn_step hend rfl)
    exact ⟨_, leadsOn_trans hround (htest (goesOn_leadsOn hs hround) rfl), rfl⟩

/-- A queued lambda is performed. -/
theorem leads_queued {s : State Seconds} (hs : GoesOn milliseconds s) {k : Nat}
    (hplace : s.place = .events) (hk : k ∈ s.pendingTasks) :
    ∃ t, LeadsOn milliseconds s t ∧ s.begins k < t.begins k := by
  have hstep : step milliseconds s .doPendingTasks =
      some { s with place := .tasks, tasks := s.pendingTasks, pendingTasks := [] } :=
    Runs.guarded_eq_some.mpr ⟨hplace, rfl⟩
  have htaken := leadsOn_step hstep rfl
  obtain ⟨t, ht, _, _, _, hbegins⟩ := leads_drained (goesOn_leadsOn hs htaken)
  exact ⟨t, leadsOn_trans htaken ht, hbegins k hk⟩

variable (milliseconds) in
/-- A thread wakes when time has passed, and queues its lambda. -/
theorem leads_woken {s : State Seconds} {k : Nat} (hk : k ∈ s.sleeping.map Sleeper.job) :
    ∃ t, LeadsOn milliseconds s t ∧ t.place = s.place ∧ k ∈ t.pendingTasks := by
  obtain ⟨sleeper, hmem, rfl⟩ := List.mem_map.mp hk
  obtain ⟨i, hi, rfl⟩ := List.mem_iff_getElem.mp hmem
  have hpass : step milliseconds s (.pass (s.sleeping[i].wakes - s.clock).toNat) = some _ := rfl
  have hwake : step milliseconds
      { s with clock := s.clock + (s.sleeping[i].wakes - s.clock).toNat } (.wake i) =
      some { s with
        clock := s.clock + (s.sleeping[i].wakes - s.clock).toNat
        sleeping := s.sleeping.eraseIdx i
        pendingTasks := s.pendingTasks ++ [s.sleeping[i].job] } := by
    simp only [step, List.getElem?_eq_getElem hi]
    rw [Runs.guarded_eq_some]
    exact ⟨by omega, rfl⟩
  refine ⟨_, leadsOn_trans (leadsOn_step hpass rfl) (leadsOn_step hwake rfl), rfl, ?_⟩
  simp

/-- In a round of the loop, the lambda of a job sleeps or is queued. -/
theorem waits_of_round {s : State Seconds} (hs : Regular milliseconds s)
    (hplace : s.place = .events) {k : Nat} (hk : k < s.jobs.length) :
    k ∈ s.pendingTasks ∨ k ∈ s.sleeping.map Sleeper.job := by
  obtain ⟨htasks, hrunning⟩ := hs.outside (by simp [hplace])
  have hmem : k ∈ s.lambdas := by
    rw [← List.count_pos_iff, hs.lambdas, if_pos hk]
    exact Nat.one_pos
  simp only [State.lambdas, htasks, hrunning, Option.toList_none, List.append_nil,
    List.mem_append] at hmem
  exact hmem.symm

/-- The task of any job begins once more, if the run goes on so. -/
theorem leads_again {s : State Seconds} (hs : GoesOn milliseconds s) {k : Nat}
    (hk : k < s.jobs.length) :
    ∃ t, Runs.Leads (step milliseconds) s t ∧ s.begins k < t.begins k := by
  obtain ⟨t, ht, hplace⟩ := leads_round hs
  have hround := goesOn_leadsOn hs ht
  have hst := begins_leads ht.1 k
  have hjobs := jobs_leads ht.1
  rcases waits_of_round hround.regular hplace (Nat.lt_of_lt_of_le hk hjobs) with hqueued | hasleep
  · obtain ⟨u, hu, hbegins⟩ := leads_queued hround hplace hqueued
    exact ⟨u, (leadsOn_trans ht hu).1, by omega⟩
  · obtain ⟨u, hu, huplace, hqueued⟩ := leads_woken milliseconds hasleep
    have htu := leadsOn_trans ht hu
    have hsu := begins_leads htu.1 k
    obtain ⟨v, hv, hbegins⟩ :=
      leads_queued (goesOn_leadsOn hs htu) (huplace.trans hplace) hqueued
    exact ⟨v, (leadsOn_trans htu hv).1, by omega⟩

/-- After the end of `loop` no task begins. -/
theorem returned_step (s : State Seconds) (a : Action Seconds) (t : State Seconds)
    (hs : Regular milliseconds s ∧ s.place = .returned) (h : step milliseconds s a = some t) :
    (Regular milliseconds t ∧ t.place = .returned) ∧ ∀ k, t.begins k = s.begins k := by
  obtain ⟨hregular, hplace⟩ := hs
  obtain ⟨htasks, hrunning⟩ := hregular.outside (by simp [hplace])
  have hnext := regular_step s a t hregular h
  cases outcome_of_step h with
  | pass | wakes | quit => exact ⟨⟨hnext, hplace⟩, fun _ => rfl⟩
  | asks => exact ⟨⟨hnext, hplace⟩, begins_asks rfl rfl⟩
  | goesOn hother | ends hother | takes hother | drained hother =>
    rw [hplace] at hother
    cases hother
  | begins k rest _ hother =>
    rw [htasks] at hother
    cases hother
  | returns k j ms hother =>
    rw [hrunning] at hother
    cases hother

/-- However a run has gone, as long as `quit` has not been called it can go on so that the task of
any job begins once more; once `loop` has returned, no task ever begins again. -/
theorem runEvery_recurs {clock : Int} {acts : List (Action Seconds)} {s : State Seconds}
    (hrun : Runs.exec (step milliseconds) (idle Seconds clock) acts = some s)
    {k : Nat} (hk : k < s.jobs.length) :
    (s.quit = false → ∃ t, Runs.Leads (step milliseconds) s t ∧ s.begins k < t.begins k) ∧
      (s.place = .returned →
        ∀ t, Runs.Leads (step milliseconds) s t → t.begins k = s.begins k) := by
  have hs := regular_exec hrun
  constructor
  · intro hquit
    exact leads_again ⟨hs, hquit⟩ hk
  · intro hplace t ht
    have hkept := Runs.leads_invariant
      (fun u => (Regular milliseconds u ∧ u.place = .returned) ∧ u.begins k = s.begins k)
      (fun u a v hu hstep =>
        have hnext := returned_step u a v hu.1 hstep
        ⟨hnext.1, (hnext.2 k).trans hu.2⟩) ⟨⟨hs, hplace⟩, rfl⟩ ht
    exact hkept.2

/-- The loop is told to quit while the lambda is queued. -/
def quitMeanwhile : List (Action Int) := [.runEvery 1, .pass 1000, .wake 0, .quit, .testQuit]

theorem runEvery_recurs_second :
    (∃ t, Runs.Leads (step castMilliseconds) afterSeconds t ∧
      afterSeconds.begins 0 < t.begins 0) ∧
    ∃ s, Runs.exec (step castMilliseconds) (idle Int 0) quitMeanwhile = some s ∧
      ∀ t, Runs.Leads (step castMilliseconds) s t → t.begins 0 = 0 := by
  have hrun : Runs.exec (step castMilliseconds) (idle Int 0) quitMeanwhile = some _ := rfl
  exact ⟨(runEvery_recurs everySecond_run (by decide)).1 rfl, _, hrun,
    (runEvery_recurs hrun (by decide)).2 rfl⟩

end

end PeriodicTasks
