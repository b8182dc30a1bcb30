import OrderEngine.TcpConnection

/-!
# Buffered output and write interest

The runs of one established connection. `send` leaves what the kernel does not
take in the output buffer, where only `handleWrite` can take it up, and that needs
the write interest of the channel. Nothing ever enables it, so the hand-over works
exactly as long as nothing is left in the buffer.
-/
namespace WriteInterest

open TcpConnection EpollPoller

inductive Op where
  | send (data : List UInt8) (write : WriteResult)
  | handleRead (read : ReadResult)
  | messageReturns
  | handleWrite (write : WriteResult)
  | closeConnection
  | closeReturns
  deriving DecidableEq, Repr

/-- A handler's own closing of the connection. -/
def react (r : Connection × Connection.Reaction) : Connection :=
  Connection.react id Connection.close r

/-- One operation of the connection. A callback's operations come between
`handleRead` and `messageReturns`, or `closeConnection` and `closeReturns`. -/
def step (c : Connection) : Op → Option Connection
  | .send data write => Runs.guarded (write.Fits data.length) (c.send data write).1
  | .handleRead read => Runs.guarded read.Fits (react (c.handleRead read))
  | .messageReturns => some c.messageReturns
  | .handleWrite write =>
    Runs.guarded (write.Fits c.outputBuffer.length) (react (c.handleWrite write))
  | .closeConnection => some c.close
  | .closeReturns => Runs.guarded (c.state = .kDisconnecting) c.endClose

/-- While the connection is up, its channel has write interest exactly when bytes
wait in the output buffer. -/
def Handover (c : Connection) : Prop :=
  c.state = .kConnected → (c.outputBuffer ≠ [] ↔ c.isWriting = true)

/-- The kernel takes all of the data at once, or says that the peer is gone. -/
def Flushed (data : List UInt8) (write : WriteResult) : Prop :=
  match write.count with
  | some n => data.length ≤ n
  | none => data = [] ∨ write.errno = .pipe ∨ write.errno = .connReset

/-- A `send` on the connection while it is up and nothing waits is flushed. -/
def FlushedStep (c : Connection) : Op → Prop
  | .send data write => c.state = .kConnected → c.outputBuffer = [] → Flushed data write
  | _ => True

theorem react_channel (r : Connection × Connection.Reaction) : (react r).channel = r.1.channel := by
  refine react_induction (fun c => c.channel = r.1.channel) rfl id ?_
  intro _
  exact close_channel r.1

/-- No operation touches the channel. -/
theorem step_channel {c c' : Connection} {op : Op} (h : step c op = some c') :
    c'.channel = c.channel := by
  cases op with
  | send data write =>
    obtain ⟨_, rfl⟩ := Runs.guarded_eq_some.mp h
    exact send_channel c data write
  | handleRead read =>
    obtain ⟨_, rfl⟩ := Runs.guarded_eq_some.mp h
    obtain ⟨bytes, heq⟩ := handleRead_eq c read
    rw [react_channel, heq]
  | messageReturns =>
    cases h
    rfl
  | handleWrite write =>
    obtain ⟨_, rfl⟩ := Runs.guarded_eq_some.mp h
    obtain ⟨n, heq⟩ := handleWrite_eq c write
    rw [react_channel, heq]
  | closeConnection =>
    cases h
    exact close_channel c
  | closeReturns =>
    obtain ⟨_, rfl⟩ := Runs.guarded_eq_some.mp h
    rfl

/-- The channel never has write interest. -/
def ReadOnly (c : Connection) : Prop := c.isWriting = false

theorem readOnly_step (c : Connection) (op : Op) (c' : Connection) (h : ReadOnly c)
    (hstep : step c op = some c') : ReadOnly c' := by
  unfold ReadOnly Connection.isWriting
  rw [step_channel hstep]
  exact h

theorem readOnly_established (sockfd : Nat) (messageCallback : Bool) :
    ReadOnly (.established sockfd messageCallback) := by
  have hmask : kReadEvent &&& kWriteEvent = 0 := by decide
  simp [ReadOnly, Connection.isWriting, Connection.established, Connection.establishConnection,
    Connection.setChannel, Channel.isWriting, hmask]

/-- Nothing waits in the output buffer while the connection is up. -/
def Clear (c : Connection) : Prop := c.state = .kConnected → c.outputBuffer = []

theorem handover_iff_clear {c : Connection} (h : ReadOnly c) : Handover c ↔ Clear c := by
  unfold Handover Clear
  rw [h]
  simp

/-- A flushed `send` is one after which nothing waits. -/
theorem send_clear_iff {c : Connection} (hstate : c.state = .kConnected)
    (hbuffer : c.outputBuffer = []) (data : List UInt8) {write : WriteResult} :
    (c.send data write).1.outputBuffer = [] ↔ Flushed data write := by
  unfold Connection.send Flushed
  rw [if_neg (by simp [hstate]), if_pos hbuffer]
  cases hcount : write.count with
  | some n =>
    by_cases hall : data.length - n = 0
    · simp only [hall, if_true, hbuffer, true_iff]
      omega
    · simp only [hall, if_false, hbuffer, List.nil_append, List.drop_eq_nil_iff]
  | none =>
    by_cases hfault : write.errno = .pipe ∨ write.errno = .connReset
    · simp [hfault, hbuffer]
    · simp [hfault, hbuffer]

theorem clear_close {c : Connection} : Clear c.close := by
  intro hstate
  exact absurd hstate (close_not_connected c)

theorem clear_react {r : Connection × Connection.Reaction} (h : Clear r.1) : Clear (react r) :=
  react_induction Clear h id (fun _ => clear_close)

theorem clear_step (c : Connection) (op : Op) (c' : Connection) (h : Clear c)
    (hflushed : FlushedStep c op) (hstep : step c op = some c') : Clear c' := by
  cases op with
  | send data write =>
    obtain ⟨_, rfl⟩ := Runs.guarded_eq_some.mp hstep
    intro hstate
    rw [send_state] at hstate
    exact (send_clear_iff hstate (h hstate) data).mpr (hflushed hstate (h hstate))
  | handleRead read =>
    obtain ⟨_, rfl⟩ := Runs.guarded_eq_some.mp hstep
    obtain ⟨bytes, heq⟩ := handleRead_eq c read
    apply clear_react
    rw [heq]
    exact h
  | messageReturns =>
    cases hstep
    exact h
  | handleWrite write =>
    obtain ⟨_, rfl⟩ := Runs.guarded_eq_some.mp hstep
    obtain ⟨n, heq⟩ := handleWrite_eq c write
    apply clear_react
    rw [heq]
    intro hstate
    simp only [h hstate, List.drop_nil]
  | closeConnection =>
    cases hstep
    exact clear_close
  | closeReturns =>
    obtain ⟨_, rfl⟩ := Runs.guarded_eq_some.mp hstep
    intro hstate
    cases hstate

/-- A step after which nothing waits flushes what it sends. -/
theorem flushed_of_clear (c : Connection) (op : Op)
    (hnext : ∀ c', step c op = some c' → Clear c') : FlushedStep c op := by
  cases op with
  | send data write =>
    intro hstate hbuffer
    by_cases hfits : write.Fits data.length
    · have hclear := hnext _ (Runs.guarded_eq_some.mpr ⟨hfits, rfl⟩)
      exact (send_clear_iff hstate hbuffer data).mp (hclear (by rw [send_state, hstate]))
    · obtain ⟨n, hrest⟩ := not_forall.mp hfits
      obtain ⟨hn, hmore⟩ := not_forall.mp hrest
      simp only [Flushed, Option.mem_def.mp hn]
      omega
  | _ => trivial

/-- Along a run of an established connection the hand-over between the two write
paths works in every state exactly when every `send` is flushed. -/
theorem handover_iff (sockfd : Nat) (messageCallback : Bool) (ops : List Op) :
    Runs.Throughout step Handover (.established sockfd messageCallback) ops ↔
      Runs.Along step FlushedStep (.established sockfd messageCallback) ops := by
  have hstart := readOnly_established sockfd messageCallback
  constructor
  · intro h
    refine Runs.along_of_throughout ReadOnly readOnly_step ?_ hstart h
    intro c op hreadOnly _ hnext
    apply flushed_of_clear c op
    intro c' hstep
    exact (handover_iff_clear (readOnly_step c op c' hreadOnly hstep)).mp (hnext c' hstep)
  · intro h
    have hboth : Runs.Throughout step (fun c => ReadOnly c ∧ Clear c)
        (.established sockfd messageCallback) ops := by
      refine Runs.throughout_of_step (fun c => ReadOnly c ∧ Clear c) ?_
        ⟨hstart, fun _ => rfl⟩ h
      rintro c op c' ⟨hreadOnly, hclear⟩ hflushed hstep
      exact ⟨readOnly_step c op c' hreadOnly hstep, clear_step c op c' hclear hflushed hstep⟩
    exact Runs.throughout_mono (fun c hc => (handover_iff_clear hc.1).mpr hc.2) hboth

/-- One short write: two of three bytes wait, and the poller is not told. -/
theorem short_write_stuck : ∃ c,
    Runs.exec step (.established 5 true) [.send [1, 2, 3] ⟨some 1, .wouldBlock⟩] = some c ∧
      c.state = .kConnected ∧ c.outputBuffer = [2, 3] ∧ ¬ Handover c := by
  refine ⟨_, rfl, rfl, rfl, ?_⟩
  intro h
  have hwriting := (h rfl).mp (by decide)
  exact absurd hwriting (by decide)

end WriteInterest
