import OrderEngine.Library.Runs
import Mathlib.Algebra.Order.Ring.Int

/-!
# Reactor: tasks for a later time

`runAt` takes the seconds up to its time, and `runAfter` starts a thread that sleeps for as many
milliseconds and hands the task to the loop. The milliseconds are an `int`.
-/
namespace ReactorTimers

abbrev TaskId := Nat

/-- `static_cast<int>(delay_seconds * 1000)` for whole seconds: the `double` of their product is
exact, or too large for an `int` as the product is. `none` where the `int` cannot hold it, which is
undefined. -/
def castMilliseconds (delay_seconds : Int) : Option Int :=
  Runs.guarded (-2 ^ 31 ≤ delay_seconds * 1000 ∧ delay_seconds * 1000 < 2 ^ 31)
    (delay_seconds * 1000)

/-- The difference of two `time_t`; `none` where it overflows, which is undefined. -/
def timeSub (a b : Int) : Option Int :=
  Runs.guarded (-2 ^ 63 ≤ a - b ∧ a - b < 2 ^ 63) (a - b)

/-- The caller hands the task to the loop, or a thread does so after it has slept. -/
inductive Plan where
  | runInLoop
  | sleepFor (milliseconds : Int)
  deriving DecidableEq

/-- `Reactor::runAfter`, for a delay of whole seconds, as `runAt` has it. -/
def runAfter (delay_seconds : Int) : Option Plan := (castMilliseconds delay_seconds).map .sleepFor

/-- `Reactor::runAt`, at the time that `time(nullptr)` returns. -/
def runAt (now when : Int) : Option Plan :=
  match timeSub when now with
  | none => none
  | some delay => if delay ≤ 0 then some .runInLoop else runAfter delay

/-- A thread of `runAfter`, with the time of its task and when its sleep is over. -/
structure Sleeper where
  task : TaskId
  when : Int
  wakes : Int

/-- A call of `runInLoop`. -/
structure Handover where
  task : TaskId
  when : Int
  time : Int

/-- The clock in milliseconds, the threads that sleep, and what has been handed over. -/
structure State where
  clock : Int
  sleeping : List Sleeper
  handed : List Handover

/-- `time(nullptr)`. -/
def State.now (s : State) : Int := s.clock / 1000

inductive Action where
  | pass (milliseconds : Nat)
  | runAt (task : TaskId) (when : Int)
  | wake (i : Nat)

/-- One step; `none` also where the code is undefined. A thread does not wake before its sleep is
over, but it may do so later. -/
def step (s : State) : Action → Option State
  | .pass milliseconds => some { s with clock := s.clock + milliseconds }
  | .runAt task when =>
    match runAt s.now when with
    | none => none
    | some .runInLoop =>
      some { s with handed := s.handed ++ [{ task := task, when := when, time := s.clock }] }
    | some (.sleepFor milliseconds) =>
      some { s with
        sleeping := s.sleeping ++
          [{ task := task, when := when, wakes := s.clock + milliseconds }] }
  | .wake i =>
    match s.sleeping[i]? with
    | none => none
    | some t =>
      Runs.guarded (t.wakes ≤ s.clock) { s with
        sleeping := s.sleeping.eraseIdx i
        handed := s.handed ++ [{ task := t.task, when := t.when, time := s.clock }] }

/-- Nothing has been scheduled yet, at whatever time. -/
def Init (s : State) : Prop := s.sleeping = [] ∧ s.handed = []

/-- No task has been handed over before its time, and no thread is going to do so. -/
structure Punctual (s : State) : Prop where
  sleeping : ∀ t ∈ s.sleeping, t.when * 1000 ≤ t.wakes
  handed : ∀ h ∈ s.handed, h.when * 1000 ≤ h.time

/-- `runAt` sleeps for exactly the time up to `when`; and from any state of that time it goes
on, and no run from there hands a task over early. -/
structure OnTime (now when : Int) : Prop where
  exact : runAt now when = some (.sleepFor ((when - now) * 1000))
  punctual : ∀ s task, Runs.Reachable Init step s → s.now = now →
    ∃ t, step s (.runAt task when) = some t ∧
      ∀ acts u, Runs.exec step t acts = some u → ∀ h ∈ u.handed, h.when * 1000 ≤ h.time

theorem runAt_future {now when : Int} (h : now < when) :
    runAt now when = Runs.guarded (when - now ≤ 2147483) (.sleepFor ((when - now) * 1000)) := by
  rw [runAt]
  by_cases hsub : when - now < 2 ^ 63
  · have htime : timeSub when now = some (when - now) := by
      rw [timeSub, Runs.guarded_eq_some]
      omega
    have hdelay : ¬ when - now ≤ 0 := by omega
    have hrange : -2 ^ 31 ≤ (when - now) * 1000 ∧ (when - now) * 1000 < 2 ^ 31 ↔
        when - now ≤ 2147483 := by omega
    simp only [htime, if_neg hdelay, runAfter, castMilliseconds, Runs.guarded, hrange]
    split <;> rfl
  · have htime : timeSub when now = none := by
      rw [timeSub, Runs.guarded, if_neg]
      omega
    have hfar : ¬ when - now ≤ 2147483 := by omega
    simp only [htime, Runs.guarded, if_neg hfar]

/-- Where `runAt` is defined, the task is due at once or a thread sleeps until it is. -/
theorem runAt_cases {now when : Int} {plan : Plan} (h : runAt now when = some plan) :
    plan = .runInLoop ∧ when ≤ now ∨ plan = .sleepFor ((when - now) * 1000) := by
  by_cases hnow : when ≤ now
  · left
    rw [runAt] at h
    cases htime : timeSub when now with
    | none => simp [htime] at h
    | some delay =>
      have hdelay : delay ≤ 0 := by
        rw [timeSub, Runs.guarded_eq_some] at htime
        omega
      simp only [htime, if_pos hdelay, Option.some.injEq] at h
      exact ⟨h.symm, hnow⟩
  · right
    rw [runAt_future (Int.not_le.mp hnow), Runs.guarded_eq_some] at h
    exact h.2.symm

theorem now_le_clock (s : State) : s.now * 1000 ≤ s.clock := by
  rw [State.now]
  omega

theorem punctual_init {s : State} (h : Init s) : Punctual s := by
  constructor
  · simp [h.1]
  · simp [h.2]

theorem punctual_handed {s : State} {h : Handover} (hs : Punctual s)
    (htime : h.when * 1000 ≤ h.time) : ∀ g ∈ s.handed ++ [h], g.when * 1000 ≤ g.time := by
  intro g hg
  rcases List.mem_append.mp hg with hg | hg
  · exact hs.handed g hg
  · rw [List.mem_singleton] at hg
    rwa [hg]

theorem punctual_step (s : State) (a : Action) (t : State) (hs : Punctual s)
    (h : step s a = some t) : Punctual t := by
  cases a with
  | pass milliseconds =>
    cases h
    exact ⟨hs.sleeping, hs.handed⟩
  | runAt task when =>
    have hclock := now_le_clock s
    cases hplan : runAt s.now when with
    | none => simp [step, hplan] at h
    | some plan =>
      rcases runAt_cases hplan with ⟨rfl, hdue⟩ | rfl
      · simp only [step, hplan, Option.some.injEq] at h
        subst h
        constructor
        · exact hs.sleeping
        · apply punctual_handed hs
          change when * 1000 ≤ s.clock
          omega
      · simp only [step, hplan, Option.some.injEq] at h
        subst h
        constructor
        · intro r hr
          rcases List.mem_append.mp hr with hr | hr
          · exact hs.sleeping r hr
          · rw [List.mem_singleton] at hr
            subst hr
            change when * 1000 ≤ s.clock + (when - s.now) * 1000
            omega
        · exact hs.handed
  | wake i =>
    cases hget : s.sleeping[i]? with
    | none => simp [step, hget] at h
    | some r =>
      simp only [step, hget, Runs.guarded_eq_some] at h
      obtain ⟨hawake, rfl⟩ := h
      have hwhen := hs.sleeping r (List.mem_of_getElem? hget)
      constructor
      · intro q hq
        exact hs.sleeping q (List.mem_of_mem_eraseIdx hq)
      · apply punctual_handed hs
        change r.when * 1000 ≤ s.clock
        omega

/-- `runAt` keeps to its time exactly where that is no further off than an `int` of
milliseconds reaches. -/
theorem runAt_on_time_iff {now when : Int} (h : now < when) :
    OnTime now when ↔ when - now ≤ 2147483 := by
  constructor
  · intro htime
    have hexact := htime.exact
    rw [runAt_future h, Runs.guarded_eq_some] at hexact
    exact hexact.1
  · intro hnear
    have hexact : runAt now when = some (.sleepFor ((when - now) * 1000)) := by
      rw [runAt_future h, Runs.guarded_eq_some]
      exact ⟨hnear, rfl⟩
    constructor
    · exact hexact
    · intro s task hreach hnow
      have hs := Runs.invariant_reachable Punctual (fun _ => punctual_init) punctual_step hreach
      have hstep : ∃ t, step s (.runAt task when) = some t := by
        simp [step, hnow, hexact]
      obtain ⟨t, ht⟩ := hstep
      refine ⟨t, ht, ?_⟩
      intro acts u hrun
      exact (Runs.invariant_exec Punctual punctual_step (punctual_step _ _ _ hs ht) hrun).handed

theorem runAt_on_time_hour : OnTime 0 3600 :=
  (runAt_on_time_iff (by decide)).mpr (by decide)

/-- Twenty-five days ahead, the number of milliseconds is not an `int`. -/
theorem far_time_undefined : (0 : Int) < 2160000 ∧ runAt 0 2160000 = none ∧ ¬ OnTime 0 2160000 := by
  have hnone : runAt 0 2160000 = none := by
    rw [runAt_future (by decide)]
    decide
  refine ⟨by decide, hnone, ?_⟩
  intro htime
  have hexact := htime.exact
  rw [hnone] at hexact
  cases hexact

end ReactorTimers
