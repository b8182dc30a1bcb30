import OrderEngine.OutputStream

/-!
# OrderEngineApplication: the echo of each message

The application answers each message with a text before it. One connection sees reads of any
number of bytes, writes that the kernel takes in part, and its close, in any order.
-/
namespace EchoServer

open TcpConnection OutputStream

/-- `Echo: ` -/
def echo : List UInt8 := [0x45, 0x63, 0x68, 0x6F, 0x3A, 0x20]

/-- `OrderEngineApplication::handleMessage`. -/
def handleMessage (c : Connection) (message : List UInt8) (write : WriteResult) :
    Connection × Int :=
  c.sendString (echo ++ message) write

/-- What follows a handler; `write` is what the kernel does in the echo, and the application's
callback for a close only logs. -/
def react (write : WriteResult) (r : Connection × Connection.Reaction) : Connection :=
  Connection.react (fun c => (handleMessage c c.inputBuffer write).1.messageReturns)
    Connection.closeConnection r

/-- The events of the connection's channel. -/
inductive Op where
  | readable (read : ReadResult) (write : WriteResult)
  | writable (write : WriteResult)
  | hangUp
  deriving DecidableEq, Repr

def step (c : Connection) : Op → Option Connection
  | .readable read write =>
    Runs.guarded
      (read.Fits ∧ write.Fits (echo ++ (c.handleRead read).1.inputBuffer).length)
      (react write (c.handleRead read))
  | .writable write =>
    Runs.guarded (write.Fits c.outputBuffer.length) (react write (c.handleWrite write))
  | .hangUp => some c.closeConnection

/-- The bytes of each read. -/
def received (_ : Connection) : Op → List (List UInt8)
  | .readable (.data bytes) _ => [bytes]
  | _ => []

/-- The messages that the application is given. -/
def messages (c : Connection) : Op → List (List UInt8)
  | .readable read _ =>
    if (c.handleRead read).2 = .message then [(c.handleRead read).1.inputBuffer] else []
  | _ => []

/-- The messages whose echo `send` has accepted. -/
def echoed (c : Connection) : Op → List (List UInt8)
  | .readable read write =>
    (messages c (.readable read write)).filter (fun message =>
      0 ≤ (handleMessage (c.handleRead read).1 message write).2)
  | _ => []

/-- The bytes that the kernel takes. -/
def accepted (c : Connection) : Op → List UInt8
  | .readable read write =>
    (messages c (.readable read write)).flatMap (fun message =>
      sendWrites (c.handleRead read).1 (echo ++ message) write)
  | .writable write => written c.outputBuffer write
  | .hangUp => []

/-- No event is being handled: what has been read has been passed on. -/
structure Idle (c : Connection) : Prop where
  callback : c.messageCallback = true
  input : c.inputBuffer = []

theorem idle_established (sockfd : Nat) : Idle (.established sockfd true) := ⟨rfl, rfl⟩

/-- `send` does not look at the input. -/
theorem handleMessage_input (c : Connection) (message input : List UInt8) (write : WriteResult) :
    handleMessage { c with inputBuffer := input } message write =
      ({ (handleMessage c message write).1 with inputBuffer := input },
        (handleMessage c message write).2) := by
  simp only [handleMessage, Connection.sendString, Connection.send]
  split
  · rfl
  · split
    · split
      · split <;> rfl
      · split <;> rfl
    · rfl

/-- The application is given the bytes that have just been read. -/
theorem handleRead_data {c : Connection} (h : Idle c) (bytes : List UInt8) :
    c.handleRead (.data bytes) = ({ c with inputBuffer := bytes }, .message) := by
  simp [Connection.handleRead, h.callback, h.input]

theorem echo_returns {c : Connection} (h : Idle c) (bytes : List UInt8) (write : WriteResult) :
    (handleMessage { c with inputBuffer := bytes } bytes write).1.messageReturns =
      (handleMessage c bytes write).1 := by
  have hinput : (handleMessage c bytes write).1.inputBuffer = [] := by
    cases send_cases c (echo ++ bytes) write with
    | inl hsame => rw [handleMessage, Connection.sendString, hsame, h.input]
    | inr hmore =>
      obtain ⟨rest, hrest⟩ := hmore
      rw [handleMessage, Connection.sendString, hrest]
      exact h.input
  rw [handleMessage_input, Connection.messageReturns]
  simp only [← hinput]

theorem handleWrite_reaction (c : Connection) (write : WriteResult) :
    (c.handleWrite write).2 = .nothing ∨ c.handleWrite write = (c, .close) := by
  simp only [Connection.handleWrite]
  split
  · exact .inl rfl
  · split
    · exact .inl rfl
    · split
      · exact .inl rfl
      · exact .inr rfl

/-- What an event does to an idle connection. -/
inductive Outcome (c : Connection) : Op → Connection → Prop where
  | echoes (bytes : List UInt8) (write : WriteResult)
      (hfits : write.Fits (echo ++ bytes).length) :
      Outcome c (.readable (.data bytes) write) (handleMessage c bytes write).1
  | retries (errno : Errno) (write : WriteResult) : Outcome c (.readable (.failed errno) write) c
  | ends (read : ReadResult) (write : WriteResult)
      (hread : read = .closed ∨ ∃ errno, read = .failed errno) :
      Outcome c (.readable read write) c.closeConnection
  | writes (write : WriteResult) : Outcome c (.writable write) (c.handleWrite write).1
  | writeFails (write : WriteResult) (hwrite : c.handleWrite write = (c, .close)) :
      Outcome c (.writable write) c.closeConnection
  | hangUp : Outcome c .hangUp c.closeConnection

theorem outcome_of_step {c c' : Connection} {op : Op} (hidle : Idle c) (h : step c op = some c') :
    Outcome c op c' := by
  cases op with
  | readable read write =>
    obtain ⟨⟨_, hfits⟩, rfl⟩ := Runs.guarded_eq_some.mp h
    cases read with
    | data bytes =>
      rw [handleRead_data hidle] at hfits ⊢
      rw [react, Connection.react, echo_returns hidle]
      exact .echoes bytes write hfits
    | closed => exact .ends .closed write (.inl rfl)
    | failed errno =>
      simp only [Connection.handleRead]
      split
      · exact .retries errno write
      · exact .ends (.failed errno) write (.inr ⟨errno, rfl⟩)
  | writable write =>
    obtain ⟨_, rfl⟩ := Runs.guarded_eq_some.mp h
    cases handleWrite_reaction c write with
    | inl hnothing =>
      have hpair : c.handleWrite write = ((c.handleWrite write).1, .nothing) := by
        rw [← hnothing]
      rw [hpair]
      exact .writes write
    | inr hclose =>
      rw [hclose]
      exact .writeFails write hclose
  | hangUp =>
    cases h
    exact .hangUp

theorem messages_data {c : Connection} (h : Idle c) (bytes : List UInt8) (write : WriteResult) :
    messages c (.readable (.data bytes) write) = [bytes] := by
  simp [messages, handleRead_data h]

theorem messages_ends {read : ReadResult} (hread : read = .closed ∨ ∃ errno, read = .failed errno)
    (c : Connection) (write : WriteResult) : messages c (.readable read write) = [] := by
  rcases hread with rfl | ⟨errno, rfl⟩
  · rfl
  · simp only [messages, Connection.handleRead]
    split <;> simp

theorem echoed_data {c : Connection} (h : Idle c) (bytes : List UInt8) (write : WriteResult) :
    echoed c (.readable (.data bytes) write) =
      if 0 ≤ (handleMessage c bytes write).2 then [bytes] else [] := by
  simp only [echoed, messages_data h, handleRead_data h, handleMessage_input]
  split <;> simp_all

theorem accepted_data {c : Connection} (h : Idle c) (bytes : List UInt8) (write : WriteResult) :
    accepted c (.readable (.data bytes) write) = sendWrites c (echo ++ bytes) write := by
  simp [accepted, messages_data h, handleRead_data h, sendWrites]

/-- Where there is no message, there is no echo. -/
theorem quiet_of_ends {read : ReadResult} (hread : read = .closed ∨ ∃ errno, read = .failed errno)
    (c : Connection) (write : WriteResult) :
    echoed c (.readable read write) = [] ∧ accepted c (.readable read write) = [] := by
  have hmessages := messages_ends hread c write
  simp [echoed, accepted, hmessages]

/-- What the application sends. -/
def sent (c : Connection) (op : Op) : List UInt8 :=
  (echoed c op).flatMap (fun message => echo ++ message)

/-- The kernel and the output buffer share what is sent. -/
theorem conserves_step (c : Connection) (op : Op) (c' : Connection) (hidle : Idle c)
    (h : step c op = some c') :
    Flow.Conserves Connection.outputBuffer sent accepted c op c' := by
  have hclose : c.closeConnection.outputBuffer = c.outputBuffer := by
    cases closeConnection_cases c with
    | inl hup => rw [hup.2]
    | inr hdown => rw [hdown.2]
  unfold Flow.Conserves sent
  cases outcome_of_step hidle h with
  | echoes bytes write hfits =>
    have hsend := send_conserves c (echo ++ bytes) hfits
    rw [echoed_data hidle, accepted_data hidle]
    change _ = _ ++ (c.send (echo ++ bytes) write).1.outputBuffer
    rw [← hsend]
    change c.outputBuffer ++ (if 0 ≤ (c.send (echo ++ bytes) write).2 then [bytes] else []).flatMap _
      = _
    split <;> simp
  | retries errno write =>
    have hquiet := quiet_of_ends (.inr ⟨errno, rfl⟩) c write
    simp [hquiet]
  | ends read write hread =>
    have hquiet := quiet_of_ends hread c write
    simp [hquiet, hclose]
  | writes write =>
    have hwrite := handleWrite_conserves c write
    simpa [echoed, accepted] using hwrite
  | writeFails write hwrite =>
    have hconserves := handleWrite_conserves c write
    rw [hwrite] at hconserves
    simpa [echoed, accepted, hclose] using hconserves
  | hangUp => simp [echoed, accepted, hclose]

theorem idle_step (c : Connection) (op : Op) (c' : Connection) (hidle : Idle c)
    (h : step c op = some c') : Idle c' := by
  have hclose : Idle c.closeConnection := by
    cases closeConnection_cases c with
    | inl hup =>
      rw [hup.2]
      exact ⟨hidle.callback, hidle.input⟩
    | inr hdown =>
      rw [hdown.2]
      exact hidle
  cases outcome_of_step hidle h with
  | echoes bytes write =>
    cases send_cases c (echo ++ bytes) write with
    | inl hsame =>
      rw [handleMessage, Connection.sendString, hsame]
      exact hidle
    | inr hmore =>
      obtain ⟨rest, hrest⟩ := hmore
      rw [handleMessage, Connection.sendString, hrest]
      exact ⟨hidle.callback, hidle.input⟩
  | retries => exact hidle
  | writes write =>
    obtain ⟨n, hn⟩ := handleWrite_eq c write
    rw [hn]
    exact ⟨hidle.callback, hidle.input⟩
  | ends | writeFails | hangUp => exact hclose

/-- A connection that is down stays down. -/
theorem down_step {c c' : Connection} {op : Op} (hidle : Idle c) (h : step c op = some c')
    (hup : c'.state = .kConnected) : c.state = .kConnected := by
  have hclose : c.closeConnection.state ≠ .kConnected := by
    cases closeConnection_cases c with
    | inl hup => rw [hup.2]; simp
    | inr hdown => rw [hdown.2]; exact hdown.1
  cases outcome_of_step hidle h with
  | echoes bytes write => rwa [handleMessage, Connection.sendString, send_state] at hup
  | retries => exact hup
  | writes write =>
    obtain ⟨n, hn⟩ := handleWrite_eq c write
    rwa [hn] at hup
  | ends | writeFails | hangUp => exact absurd hup hclose

/-- The write of the echo reports that the peer is gone. -/
def Faults : Op → Prop
  | .readable _ write => write.count = none ∧ (write.errno = .pipe ∨ write.errno = .connReset)
  | _ => False

/-- While the connection is up, `send` refuses its data only for a peer that is gone. -/
theorem send_accepts {c : Connection} (hup : c.state = .kConnected) (data : List UInt8)
    {write : WriteResult}
    (hpeer : ¬ (write.count = none ∧ (write.errno = .pipe ∨ write.errno = .connReset))) :
    0 ≤ (c.send data write).2 := by
  unfold Connection.send
  rw [if_neg (by simp [hup])]
  split
  · split
    · split <;> simp
    · rename_i hcount
      rw [if_neg (fun herrno => hpeer ⟨hcount, herrno⟩)]
      simp
  · simp

theorem messages_received (c : Connection) (op : Op) (hidle : Idle c) :
    messages c op = received c op := by
  cases op with
  | readable read write =>
    cases read with
    | data bytes => exact messages_data hidle bytes write
    | closed => exact messages_ends (.inl rfl) c write
    | failed errno => exact messages_ends (.inr ⟨errno, rfl⟩) c write
  | writable | hangUp => rfl

theorem echoed_received {c c' : Connection} {op : Op} (hidle : Idle c)
    (hadmits : c.state = .kConnected ∧ ¬ Faults op) (h : step c op = some c') :
    echoed c op = received c op := by
  cases outcome_of_step hidle h with
  | echoes bytes write =>
    rw [echoed_data hidle, if_pos]
    · rfl
    · exact send_accepts hadmits.1 _ hadmits.2
  | retries errno write => exact (quiet_of_ends (.inr ⟨errno, rfl⟩) c write).1
  | ends read write hread =>
    rw [(quiet_of_ends hread c write).1]
    rcases hread with rfl | ⟨errno, rfl⟩ <;> rfl
  | writes | writeFails | hangUp => rfl

theorem up_along {c c' : Connection} {ops : List Op} (hidle : Idle c)
    (hrun : Runs.exec step c ops = some c') (hup : c'.state = .kConnected) :
    Runs.Along step (fun c _ => c.state = .kConnected) c ops := by
  refine Runs.along_of_unmarked Idle (fun _ => True) (fun c => c.state ≠ .kConnected) idle_step
    ?_ ?_ hidle Runs.throughout_trivial hrun (by simp [hup])
  · intro c op c' hidle hdown h _ hup
    exact hdown (down_step hidle h hup)
  · intro c op c' hidle hdown h _ hup
    exact hdown (down_step hidle h hup)

section
variable (sockfd : Nat) (ops : List Op)

/-- The bytes of the reads, the messages of the application and those that it has echoed, and
the bytes that the kernel has taken, of a run from the moment the connection is set up. -/
def reads : List (List UInt8) := Flow.emitted step received (.established sockfd true) ops

def delivered : List (List UInt8) := Flow.emitted step messages (.established sockfd true) ops

def answered : List (List UInt8) := Flow.emitted step echoed (.established sockfd true) ops

def onWire : List UInt8 := Flow.emitted step accepted (.established sockfd true) ops

end

/-- From end to end: each message is what one read has brought; the peer has been sent, or will
be from the buffer, the echoes of the answered messages in their order; and while the connection
is up, all messages are answered except where the write of the echo finds the peer gone. -/
theorem echo_stream {sockfd : Nat} {ops : List Op} {c : Connection}
    (hrun : Runs.exec step (.established sockfd true) ops = some c) :
    delivered sockfd ops = reads sockfd ops ∧
      onWire sockfd ops ++ c.outputBuffer =
        (answered sockfd ops).flatMap (fun message => echo ++ message) ∧
      (answered sockfd ops).Sublist (reads sockfd ops) ∧
      (c.state = .kConnected → (∀ op ∈ ops, ¬ Faults op) →
        answered sockfd ops = reads sockfd ops) := by
  have hidle := idle_established sockfd
  have hdelivered : delivered sockfd ops = reads sockfd ops :=
    Flow.emitted_congr Idle (fun _ _ => True) idle_step
      (fun c op _ hidle _ _ => messages_received c op hidle) hidle
      (Runs.along_of_forall (fun _ _ => trivial))
  refine ⟨hdelivered, ?_, ?_, ?_⟩
  · have hconserved := Flow.conserved_invariant Idle idle_step conserves_step hidle hrun
    have hsent : Flow.emitted step sent (.established sockfd true) ops =
        (answered sockfd ops).flatMap (fun message => echo ++ message) := Flow.emitted_flatMap _
    rw [hsent] at hconserved
    exact hconserved.symm
  · rw [← hdelivered]
    apply Flow.emitted_sublist
    intro c op c' _
    cases op with
    | readable read write => exact List.filter_sublist
    | writable | hangUp => exact List.Sublist.refl _
  · intro hup hpeer
    exact Flow.emitted_congr Idle _ idle_step (fun c op _ hidle hadmits h =>
      echoed_received hidle hadmits h) hidle
      (Runs.along_and (up_along hidle hrun hup) (Runs.along_of_forall hpeer))

/-- Two messages, of which the kernel takes the first echo in part. -/
def twoMessages : List Op :=
  [.readable (.data [0x61]) ⟨some 5, .wouldBlock⟩, .readable (.data [0x62, 0x63]) ⟨some 0, .pipe⟩,
    .writable ⟨some 4, .wouldBlock⟩]

theorem echo_stream_twoMessages :
    ∃ c, Runs.exec step (.established 5 true) twoMessages = some c ∧
      onWire 5 twoMessages ++ c.outputBuffer =
        (answered 5 twoMessages).flatMap (fun message => echo ++ message) ∧
      answered 5 twoMessages = [[0x61], [0x62, 0x63]] := by
  have hrun : Runs.exec step (.established 5 true) twoMessages = some _ := rfl
  exact ⟨_, hrun, (echo_stream hrun).2.1, by decide⟩

end EchoServer
