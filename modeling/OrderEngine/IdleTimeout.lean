import OrderEngine.TcpConnection
import OrderEngine.Library.Flow

/-!
# TcpConnection: idle connections

A connection notes the time when it is made and set up, in a `send` while it is up, and whenever
its socket is readable or writable. `isTimeout` compares this time with the clock.
-/
namespace IdleTimeout

open TcpConnection

/-- The clock in seconds, which goes forward, and the connection with `last_active_time_`. -/
structure State where
  clock : Int
  conn : Connection
  lastActive : Int

/-- `updateLastActiveTime`. -/
def State.updateLastActiveTime (s : State) : State := { s with lastActive := s.clock }

/-- The constructor, at some time. -/
def created (sockfd : Nat) (clock : Int) : State where
  clock := clock
  conn := .create sockfd
  lastActive := clock

inductive Action where
  | pass (seconds : Nat)
  | establishConnection
  | closeConnection
  | send (data : List UInt8) (write : WriteResult)
  | handleRead (read : ReadResult)
  | handleWrite (write : WriteResult)
  deriving DecidableEq, Repr

/-- What follows when a handler closes the connection, or has called the user. -/
def react (r : Connection × Connection.Reaction) : Connection :=
  Connection.react Connection.messageReturns Connection.closeConnection r

def step (s : State) : Action → Option State
  | .pass seconds => some { s with clock := s.clock + seconds }
  | .establishConnection =>
    some { s with conn := s.conn.establishConnection }.updateLastActiveTime
  | .closeConnection => some { s with conn := s.conn.closeConnection }
  | .send data write =>
    if s.conn.state = .kConnected then
      some { s with conn := (s.conn.send data write).1 }.updateLastActiveTime
    else some s
  | .handleRead read =>
    some { s with conn := react (s.conn.handleRead read) }.updateLastActiveTime
  | .handleWrite write =>
    some { s with conn := react (s.conn.handleWrite write) }.updateLastActiveTime

/-- The time at which the action finds the connection active. -/
def active (s : State) : Action → List Int
  | .pass _ => []
  | .closeConnection => []
  | .send _ _ => if s.conn.state = .kConnected then [s.clock] else []
  | _ => [s.clock]

/-- `TcpConnection::isTimeout`. -/
def isTimeout (s : State) (timeout_seconds : Int) : Bool :=
  decide (s.clock - s.lastActive > timeout_seconds)

/-- A step finds the connection active now and notes the time, or leaves the time it has noted. -/
theorem step_cases {s t : State} {a : Action} (h : step s a = some t) :
    s.clock ≤ t.clock ∧
      (active s a = [s.clock] ∧ t.lastActive = s.clock ∨
        active s a = [] ∧ t.lastActive = s.lastActive) := by
  cases a with
  | pass seconds =>
    cases h
    refine ⟨?_, .inr ⟨rfl, rfl⟩⟩
    change s.clock ≤ s.clock + seconds
    omega
  | establishConnection | handleRead | handleWrite =>
    cases h
    exact ⟨Int.le_refl _, .inl ⟨rfl, rfl⟩⟩
  | closeConnection =>
    cases h
    exact ⟨Int.le_refl _, .inr ⟨rfl, rfl⟩⟩
  | send data write =>
    simp only [step] at h
    split at h
    · rename_i hup
      cases h
      exact ⟨Int.le_refl _, .inl ⟨if_pos hup, rfl⟩⟩
    · rename_i hdown
      cases h
      exact ⟨Int.le_refl _, .inr ⟨if_neg hdown, rfl⟩⟩

/-- The noted time is the last of the times at which the connection was active. -/
theorem lastActive_latest {s t : State} {acts : List Action} (hs : s.lastActive ≤ s.clock)
    (hrun : Runs.exec step s acts = some t) :
    t.lastActive ∈ s.lastActive :: Flow.emitted step active s acts ∧
      ∀ time ∈ s.lastActive :: Flow.emitted step active s acts, time ≤ t.lastActive := by
  induction acts generalizing s with
  | nil =>
    cases hrun
    simp [Flow.emitted]
  | cons a rest ih =>
    obtain ⟨u, hu, hrest⟩ := Runs.exec_cons_iff.mp hrun
    rw [Flow.emitted_cons hu]
    obtain ⟨hclock, ⟨hactive, htime⟩ | ⟨hactive, htime⟩⟩ := step_cases hu
    · obtain ⟨hmem, hle⟩ := ih (by omega) hrest
      rw [htime] at hmem hle
      rw [hactive]
      constructor
      · exact List.mem_cons_of_mem _ hmem
      · intro time htime
        cases List.mem_cons.mp htime with
        | inl hfirst =>
          have hnow := hle s.clock List.mem_cons_self
          omega
        | inr hlater => exact hle time hlater
    · have hrec := ih (by omega) hrest
      rw [htime] at hrec
      rw [hactive]
      exact hrec

/-- In every run, `isTimeout` answers true exactly where the connection has been made, and has last
been active, more than so many seconds ago: each activity puts it off, and nothing else does. -/
theorem isTimeout_iff {sockfd : Nat} {clock : Int} {acts : List Action} {s : State}
    (hrun : Runs.exec step (created sockfd clock) acts = some s) (timeout_seconds : Int) :
    isTimeout s timeout_seconds = true ↔
      ∀ time ∈ clock :: Flow.emitted step active (created sockfd clock) acts,
        time + timeout_seconds < s.clock := by
  obtain ⟨hmem, hle⟩ := lastActive_latest (Int.le_refl _) hrun
  rw [isTimeout, decide_eq_true_eq]
  constructor
  · intro htimeout time htime
    have hlast := hle time htime
    omega
  · intro hall
    have hlast := hall s.lastActive hmem
    omega

/-- A connection that sends two seconds after its set-up, and waits. -/
def waits : List Action :=
  [.establishConnection, .pass 2, .send [1] ⟨some 1, .wouldBlock⟩, .pass 30, .closeConnection,
    .send [2] ⟨some 1, .wouldBlock⟩, .pass 1]

theorem isTimeout_iff_waits : ∃ s, Runs.exec step (created 5 100) waits = some s ∧
    (isTimeout s 30 = true ↔
      ∀ time ∈ (100 : Int) :: Flow.emitted step active (created 5 100) waits,
        time + 30 < s.clock) ∧
    isTimeout s 30 = true ∧ isTimeout s 31 = false := by
  have hrun : Runs.exec step (created 5 100) waits = some _ := rfl
  exact ⟨_, hrun, isTimeout_iff hrun 30, by decide, by decide⟩

end IdleTimeout
