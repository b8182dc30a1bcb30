import OrderEngine.OutputStream

/-!
# TcpConnection: `send` in steps

`send` tests `state_`, looks whether `output_buffer_` is empty, writes, and appends what is left of
its data. Nothing is locked meanwhile: where two threads use one connection, the steps of the one
come between those of the other.
-/
namespace SendSteps

open TcpConnection OutputStream

/-- How far a `send` has come with its data: it has been called, has found the connection up, has
found nothing waiting, or goes on to append. -/
inductive Sending where
  | called (data : List UInt8)
  | up (data : List UInt8)
  | direct (data : List UInt8)
  | appends (data : List UInt8)
  deriving DecidableEq, Repr

namespace Sending

def data : Sending → List UInt8
  | .called data | .up data | .direct data | .appends data => data

/-- The next step of the `send`, with the result of its direct write; none when it returns. -/
def next (c : Connection) (write : WriteResult) : Sending → Connection × Option Sending
  | .called data => (c, if c.state = .kConnected then some (.up data) else none)
  | .up data => (c, some (if c.outputBuffer = [] then .direct data else .appends data))
  | .direct data =>
    match write.count with
    | some nwrote =>
      (c, if data.length - nwrote = 0 then none else some (.appends (data.drop nwrote)))
    | none =>
      (c, if write.errno = .pipe ∨ write.errno = .connReset then none else some (.appends data))
  | .appends data => ({ c with outputBuffer := c.outputBuffer ++ data }, none)

/-- The data, at the step from which on the `send` does not return -1. -/
def sent (c : Connection) (write : WriteResult) : Sending → List UInt8
  | .up data => if c.outputBuffer = [] then [] else data
  | .direct data =>
    if write.count = none ∧ (write.errno = .pipe ∨ write.errno = .connReset) then [] else data
  | _ => []

/-- The bytes that the kernel accepts. -/
def accepted (write : WriteResult) : Sending → List UInt8
  | .direct data => written data write
  | _ => []

/-- What the `send` has still to append. -/
def rest : Sending → List UInt8
  | .appends data => data
  | _ => []

end Sending

/-- A step of a `send` changes the output buffer only. -/
theorem next_cases (c : Connection) (write : WriteResult) (sending : Sending) :
    (sending.next c write).1 = c ∨
      ∃ data, sending = .appends data ∧
        (sending.next c write).1 = { c with outputBuffer := c.outputBuffer ++ data } := by
  cases sending with
  | called | up => exact .inl rfl
  | direct data =>
    left
    simp only [Sending.next]
    split <;> rfl
  | appends data => exact .inr ⟨data, rfl, rfl⟩

/-- A `send` goes on to write directly where nothing waits. -/
theorem next_direct {c : Connection} {write : WriteResult} {sending : Sending} {data : List UInt8}
    (h : (sending.next c write).2 = some (.direct data)) :
    (sending.next c write).1.outputBuffer = [] := by
  cases sending with
  | called => simp [Sending.next] at h
  | up =>
    simp only [Sending.next, Option.some.injEq] at h ⊢
    split at h
    · assumption
    · cases h
  | direct =>
    simp only [Sending.next] at h
    split at h <;> simp at h
  | appends => cases h

/-- What waits in the buffer and in the `send` itself gives out at its front and takes in at its
back, also where the first bytes of the buffer are the kernel's already. A direct write counts on
the buffer being empty still. -/
theorem next_conserves (c : Connection) {write : WriteResult} {sending : Sending} {taken : Nat}
    (hfits : write.Fits sending.data.length) (htaken : taken ≤ c.outputBuffer.length)
    (hdirect : ∀ data, sending = .direct data → c.outputBuffer = []) :
    (c.outputBuffer.drop taken ++ sending.rest) ++ sending.sent c write =
      sending.accepted write ++ ((sending.next c write).1.outputBuffer.drop taken ++
        (sending.next c write).2.elim [] Sending.rest) := by
  cases sending with
  | called data =>
    by_cases hup : c.state = .kConnected
    · simp [Sending.next, Sending.rest, Sending.sent, Sending.accepted, hup]
    · simp [Sending.next, Sending.rest, Sending.sent, Sending.accepted, hup]
  | up data =>
    by_cases hempty : c.outputBuffer = []
    · simp [Sending.next, Sending.rest, Sending.sent, Sending.accepted, hempty]
    · simp [Sending.next, Sending.rest, Sending.sent, Sending.accepted, hempty]
  | direct data =>
    have hempty := hdirect data rfl
    cases hcount : write.count with
    | some nwrote =>
      have hle : nwrote ≤ data.length := hfits nwrote hcount
      by_cases hall : data.length - nwrote = 0
      · have hfull : nwrote = data.length := by omega
        simp [Sending.next, Sending.rest, Sending.sent, Sending.accepted, written, hempty, hcount,
          hfull]
      · simp [Sending.next, Sending.rest, Sending.sent, Sending.accepted, written, hempty, hcount,
          hall]
    | none =>
      by_cases hfault : write.errno = .pipe ∨ write.errno = .connReset
      · simp [Sending.next, Sending.rest, Sending.sent, Sending.accepted, written, hempty, hcount,
          hfault]
      · simp [Sending.next, Sending.rest, Sending.sent, Sending.accepted, written, hempty, hcount,
          hfault]
  | appends data =>
    simp [Sending.next, Sending.rest, Sending.sent, Sending.accepted,
      List.drop_append_of_le_length htaken]

/-- A connection and the `send` that uses it. -/
def step : Connection × Option Sending → WriteResult → Option (Connection × Option Sending)
  | (c, some sending), write => some (sending.next c write)
  | (_, none), _ => none

def sent : Connection × Option Sending → WriteResult → List UInt8
  | (c, some sending), write => sending.sent c write
  | (_, none), _ => []

def accepted : Connection × Option Sending → WriteResult → List UInt8
  | (_, some sending), write => sending.accepted write
  | (_, none), _ => []

/-- The steps of a `send` with no other between them are the `send`. -/
theorem steps_send (c : Connection) (data : List UInt8) (write : WriteResult) :
    ∃ n, Runs.exec step (c, some (.called data)) (List.replicate n write) =
        some ((c.send data write).1, none) ∧
      Flow.emitted step sent (c, some (.called data)) (List.replicate n write) =
        (if 0 ≤ (c.send data write).2 then data else []) ∧
      Flow.emitted step accepted (c, some (.called data)) (List.replicate n write) =
        sendWrites c data write := by
  by_cases hup : c.state = .kConnected
  · by_cases hempty : c.outputBuffer = []
    · cases hcount : write.count with
      | some nwrote =>
        by_cases hall : data.length - nwrote = 0
        · refine ⟨3, ?_⟩
          simp [step, sent, accepted, Flow.emitted, Sending.next, Sending.sent, Sending.accepted,
            Connection.send, sendWrites, List.replicate, hup, hempty, hcount, hall]
        · refine ⟨4, ?_⟩
          simp [step, sent, accepted, Flow.emitted, Sending.next, Sending.sent, Sending.accepted,
            Connection.send, sendWrites, List.replicate, hup, hempty, hcount, hall]
      | none =>
        by_cases hfault : write.errno = .pipe ∨ write.errno = .connReset
        · refine ⟨3, ?_⟩
          simp [step, sent, accepted, Flow.emitted, Sending.next, Sending.sent, Sending.accepted,
            Connection.send, sendWrites, List.replicate, hup, hempty, hcount, hfault]
        · refine ⟨4, ?_⟩
          simp [step, sent, accepted, Flow.emitted, Sending.next, Sending.sent, Sending.accepted,
            Connection.send, sendWrites, List.replicate, hup, hempty, hcount, hfault]
    · refine ⟨3, ?_⟩
      simp [step, sent, accepted, Flow.emitted, Sending.next, Sending.sent, Sending.accepted,
        Connection.send, sendWrites, List.replicate, hup, hempty]
  · refine ⟨1, ?_⟩
    simp [step, sent, accepted, Flow.emitted, Sending.next, Sending.sent, Sending.accepted,
      Connection.send, sendWrites, List.replicate, hup]

end SendSteps
