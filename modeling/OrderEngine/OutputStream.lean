import OrderEngine.Library.Flow
import OrderEngine.WriteInterest

/-!
# Integrity of the output stream

A connection writes directly while nothing waits, buffers what the kernel leaves, and
drains the buffer from its front. The buffer is a flow: what the sends accept goes in
at its back, what the kernel takes goes out at its front.
-/
namespace OutputStream

open TcpConnection WriteInterest

/-- The operations that write, and any change of the connection's state between them. -/
inductive Op where
  | send (data : List UInt8) (write : WriteResult)
  | sendString (data : List UInt8) (write : WriteResult)
  | handleWrite (write : WriteResult)
  | setState (state : ConnState)
  deriving DecidableEq, Repr

def step (c : Connection) : Op → Option Connection
  | .send data write => Runs.guarded (write.Fits data.length) (c.send data write).1
  | .sendString data write => Runs.guarded (write.Fits data.length) (c.sendString data write).1
  | .handleWrite write =>
    Runs.guarded (write.Fits c.outputBuffer.length) (react (c.handleWrite write))
  | .setState state => some { c with state := state }

/-- The bytes at the front of `bytes` that the kernel's `write` takes. -/
def written (bytes : List UInt8) (write : WriteResult) : List UInt8 :=
  bytes.take (write.count.getD 0)

/-- What the kernel accepts in a `send`, which writes only while nothing waits. -/
def sendWrites (c : Connection) (data : List UInt8) (write : WriteResult) : List UInt8 :=
  if c.state = .kConnected ∧ c.outputBuffer = [] then written data write else []

/-- The bytes that the kernel accepts in an operation. -/
def accepted (c : Connection) : Op → List UInt8
  | .send data write => sendWrites c data write
  | .sendString data write => sendWrites c data write
  | .handleWrite write => written c.outputBuffer write
  | .setState _ => []

/-- The data of a `send` that returns a non-negative value. -/
def sent (c : Connection) : Op → List UInt8
  | .send data write => if 0 ≤ (c.send data write).2 then data else []
  | .sendString data write => if 0 ≤ (c.sendString data write).2 then data else []
  | _ => []

/-- A `send` passes its data on behind what waits, or returns -1 and drops it all. -/
theorem send_conserves (c : Connection) (data : List UInt8) {write : WriteResult}
    (hfits : write.Fits data.length) :
    c.outputBuffer ++ (if 0 ≤ (c.send data write).2 then data else []) =
      sendWrites c data write ++ (c.send data write).1.outputBuffer := by
  by_cases hstate : c.state = .kConnected
  · by_cases hbuffer : c.outputBuffer = []
    · cases hcount : write.count with
      | some n =>
        -- the direct write: all of the data, or a front of it
        have hle : n ≤ data.length := hfits n hcount
        by_cases hall : data.length - n = 0
        · have hfull : n = data.length := by omega
          simp [Connection.send, sendWrites, written, hstate, hbuffer, hcount, hfull]
        · simp [Connection.send, sendWrites, written, hstate, hbuffer, hcount, hall]
      | none =>
        by_cases hfault : write.errno = .pipe ∨ write.errno = .connReset
        · simp [Connection.send, sendWrites, written, hstate, hbuffer, hcount, hfault]
        · simp [Connection.send, sendWrites, written, hstate, hbuffer, hcount, hfault]
    · simp [Connection.send, sendWrites, hstate, hbuffer]
  · simp [Connection.send, sendWrites, hstate]

theorem react_outputBuffer (r : Connection × Connection.Reaction) :
    (react r).outputBuffer = r.1.outputBuffer := by
  refine react_induction (fun c => c.outputBuffer = r.1.outputBuffer) rfl id ?_
  intro _
  rcases close_cases r.1 with ⟨_, h⟩ | ⟨_, h⟩ <;> rw [h]

/-- `handleWrite` erases exactly what the kernel took. -/
theorem handleWrite_conserves (c : Connection) (write : WriteResult) :
    c.outputBuffer = written c.outputBuffer write ++ (c.handleWrite write).1.outputBuffer := by
  by_cases hbuffer : c.outputBuffer = []
  · simp [Connection.handleWrite, written, hbuffer]
  · cases hcount : write.count with
    | none =>
      by_cases hblock : write.errno = .wouldBlock
      · simp [Connection.handleWrite, written, hbuffer, hcount, hblock]
      · simp [Connection.handleWrite, written, hbuffer, hcount, hblock]
    | some n =>
      cases n with
      | zero =>
        by_cases hblock : write.errno = .wouldBlock
        · simp [Connection.handleWrite, written, hbuffer, hcount, hblock]
        · simp [Connection.handleWrite, written, hbuffer, hcount, hblock]
      | succ n => simp [Connection.handleWrite, written, hbuffer, hcount]

theorem conserves_step (c : Connection) (op : Op) (c' : Connection) (hstep : step c op = some c') :
    Flow.Conserves Connection.outputBuffer sent accepted c op c' := by
  unfold Flow.Conserves
  cases op with
  | send data write =>
    obtain ⟨hfits, rfl⟩ := Runs.guarded_eq_some.mp hstep
    exact send_conserves c data hfits
  | sendString data write =>
    obtain ⟨hfits, rfl⟩ := Runs.guarded_eq_some.mp hstep
    exact send_conserves c data hfits
  | handleWrite write =>
    obtain ⟨_, rfl⟩ := Runs.guarded_eq_some.mp hstep
    simp only [sent, accepted, List.append_nil, react_outputBuffer]
    exact handleWrite_conserves c write
  | setState state =>
    cases hstep
    simp [sent, accepted]

/-- In every state of every run, the bytes that the kernel has accepted, followed by
the output buffer, are the data of the sends that did not return -1. -/
theorem stream_intact {sockfd : Nat} {ops : List Op} {c : Connection}
    (hrun : Runs.exec step (.create sockfd) ops = some c) :
    Flow.emitted step accepted (.create sockfd) ops ++ c.outputBuffer =
      Flow.emitted step sent (.create sockfd) ops :=
  Flow.taken_eq conserves_step rfl hrun

/-- A short write, a send behind it, a send to a lost peer, and a drain. -/
def shortWrites : List Op :=
  [.setState .kConnected, .send [1, 2, 3] ⟨some 1, .wouldBlock⟩,
    .sendString [4] ⟨some 0, .wouldBlock⟩, .handleWrite ⟨some 2, .wouldBlock⟩,
    .handleWrite ⟨some 1, .wouldBlock⟩, .send [5] ⟨none, .pipe⟩]

theorem stream_intact_short_writes : ∃ c,
    Runs.exec step (.create 5) shortWrites = some c ∧
      Flow.emitted step accepted (.create 5) shortWrites ++ c.outputBuffer =
        Flow.emitted step sent (.create 5) shortWrites ∧
      Flow.emitted step sent (.create 5) shortWrites = [1, 2, 3, 4] :=
  ⟨_, rfl, stream_intact (rfl : Runs.exec step (.create 5) shortWrites = some _), by decide⟩

end OutputStream
