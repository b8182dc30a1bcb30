import OrderEngine.Library.Flow

/-!
# Event loops

A thread handles the events that it has found, one after the other, and when none is left it
performs the tasks that others have handed to it, or looks for events again. It is busy from the
beginning of a handler or a task to its return.
-/
namespace EventLoop

variable {Task Event : Type*}

structure State (Task Event : Type*) where
  tasks : List Task
  ready : List Event
  busy : Bool

/-- Nothing to do yet. -/
def idle : State Task Event where
  tasks := []
  ready := []
  busy := false

inductive Label (Task Event : Type*) where
  | hand (task : Task)
  | find (events : List Event)
  | handle
  | perform
  | finish

def step (s : State Task Event) : Label Task Event → Option (State Task Event)
  | .hand task => some { s with tasks := s.tasks ++ [task] }
  | .find events =>
    Runs.guarded (s.busy = false ∧ s.ready = []) { s with ready := events }
  | .handle =>
    Runs.guarded (s.busy = false ∧ s.ready ≠ []) { s with ready := s.ready.tail, busy := true }
  | .perform =>
    Runs.guarded (s.busy = false ∧ s.ready = [] ∧ s.tasks ≠ [])
      { s with tasks := s.tasks.tail, busy := true }
  | .finish => Runs.guarded (s.busy = true) { s with busy := false }

/-- The task that is handed over. -/
def handed (_ : State Task Event) : Label Task Event → List Task
  | .hand task => [task]
  | _ => []

/-- The task that begins. -/
def performed (s : State Task Event) : Label Task Event → List Task
  | .perform => s.tasks.take 1
  | _ => []

/-- The events that the thread finds. -/
def found (_ : State Task Event) : Label Task Event → List Event
  | .find events => events
  | _ => []

/-- The event whose handler begins. -/
def handled (s : State Task Event) : Label Task Event → List Event
  | .handle => s.ready.take 1
  | _ => []

theorem take_one_tail {α : Type*} (l : List α) : l.take 1 ++ l.tail = l := by
  rw [← List.drop_one, List.take_append_drop]

/-- Tasks are performed in the order in which they are handed over. -/
theorem tasks_conserved (s : State Task Event) (l : Label Task Event) (t : State Task Event)
    (h : step s l = some t) : Flow.Conserves State.tasks handed performed s l t := by
  unfold Flow.Conserves
  cases l with
  | hand task =>
    cases h
    rfl
  | find | handle | finish =>
    obtain ⟨_, rfl⟩ := Runs.guarded_eq_some.mp h
    simp [handed, performed]
  | perform =>
    obtain ⟨_, rfl⟩ := Runs.guarded_eq_some.mp h
    simp [handed, performed, take_one_tail]

/-- Events are handled in the order in which they are found. -/
theorem events_conserved (s : State Task Event) (l : Label Task Event) (t : State Task Event)
    (h : step s l = some t) : Flow.Conserves State.ready found handled s l t := by
  unfold Flow.Conserves
  cases l with
  | hand task =>
    cases h
    simp [found, handled]
  | find events =>
    obtain ⟨⟨_, hready⟩, rfl⟩ := Runs.guarded_eq_some.mp h
    simp [found, handled, hready]
  | handle =>
    obtain ⟨_, rfl⟩ := Runs.guarded_eq_some.mp h
    simp [found, handled, take_one_tail]
  | perform | finish =>
    obtain ⟨_, rfl⟩ := Runs.guarded_eq_some.mp h
    simp [found, handled]

end EventLoop
